import DeliveryQueue.Proofs.Aside

/-!
The layout of a data directory as it is written down. Nothing more is asked of the library for TOML
than that it reads a layout back as it wrote it (`Toml.Library.Keeps`); the one of this project does
(`Toml.Library.own_keeps`). Once a layout is recorded (`DataDirectory.Records`), the directory can
only be opened with as many buckets.
-/
namespace DeliveryQueue

namespace Toml

open Text (isDigit digitValue)

variable {digits : List Char}

/-! Numbers -/

theorem isDigit_of_mem_toDigits {n : Nat} {c : Char} (member : c ∈ Nat.toDigits 10 n) :
    isDigit c = true := by
  have digit := Nat.isDigit_of_mem_toDigits (by decide) (by decide) member
  simpa [isDigit, Char.isDigit, Char.le_def] using digit

/-- A digit is no letter and no sign. -/
theorem ne_of_isDigit {c other : Char} (digit : isDigit c = true)
    (foreign : isDigit other = false) : c ≠ other := by
  rintro rfl
  cases digit.symm.trans foreign

theorem isGrouped_of_digits (some_ : digits ≠ []) (all : ∀ c ∈ digits, isDigit c = true) :
    isGrouped isDigit digits = true := by
  induction digits with
  | nil => exact absurd rfl some_
  | cons c rest ih =>
    obtain ⟨first, others⟩ := List.forall_mem_cons.mp all
    cases rest with
    | nil => exact first
    | cons d rest =>
      have next : d ≠ '_' := ne_of_isDigit (others d List.mem_cons_self) (by decide)
      unfold isGrouped
      split
      · rename_i same
        cases same
      · rename_i same
        cases same
      · rename_i same
        cases same
        exact absurd rfl next
      · rename_i same
        cases same
        rw [first, ih (List.cons_ne_nil _ _) others]
        rfl

theorem head?_toDigits {n : Nat} (pos : 0 < n) : (Nat.toDigits 10 n).head? ≠ some '0' := by
  induction n using Nat.strongRecOn with
  | ind n ih =>
    rw [Nat.toDigits_eq_if (by decide)]
    split
    · rename_i small
      have cases : n = 1 ∨ n = 2 ∨ n = 3 ∨ n = 4 ∨ n = 5 ∨ n = 6 ∨ n = 7 ∨ n = 8 ∨ n = 9 := by
        omega
      rcases cases with rfl | rfl | rfl | rfl | rfl | rfl | rfl | rfl | rfl <;> decide
    · have rest := ih (n / 10) (by omega) (by omega)
      rw [List.head?_append]
      cases first : (Nat.toDigits 10 (n / 10)).head? with
      | none => exact absurd (List.head?_eq_none_iff.mp first) Nat.toDigits_ne_nil
      | some c =>
        rw [first] at rest
        exact rest

theorem groupedValue_toDigits (n : Nat) : groupedValue 10 (Nat.toDigits 10 n) = n := by
  have kept : (Nat.toDigits 10 n).filter (· != '_') = Nat.toDigits 10 n := by
    refine List.filter_eq_self.mpr fun c member => ?_
    simpa using ne_of_isDigit (isDigit_of_mem_toDigits member) (by decide : isDigit '_' = false)
  have values : ∀ (l : List Char) (m : Nat), (∀ c ∈ l, isDigit c = true) →
      l.foldl (fun n c => n * 10 + hexValue c) m = Nat.ofDigitChars 10 l m := by
    intro l
    induction l with
    | nil => intro m _; rfl
    | cons c l ih =>
      intro m all
      obtain ⟨first, others⟩ := List.forall_mem_cons.mp all
      rw [List.foldl_cons, ih _ others, Nat.ofDigitChars_cons, hexValue, if_pos first, Nat.mul_comm]
      rfl
  rw [groupedValue, kept, values _ _ fun c => isDigit_of_mem_toDigits,
    Nat.ofDigitChars_ten_toDigits]

theorem isPlainDecimal_toDigits (n : Nat) : isPlainDecimal (Nat.toDigits 10 n) = true := by
  have grouped := isGrouped_of_digits Nat.toDigits_ne_nil fun c => isDigit_of_mem_toDigits (n := n)
  rw [isPlainDecimal, grouped, Bool.true_and, Bool.or_eq_true]
  rcases Nat.eq_zero_or_pos n with rfl | pos
  · exact .inl rfl
  · exact .inr (by simpa using head?_toDigits pos)

theorem integer?_toDigits (n : Nat) : integer? (Nat.toDigits 10 n) = some (n : Int) := by
  have all : ∀ c ∈ Nat.toDigits 10 n, isDigit c = true := fun c => isDigit_of_mem_toDigits
  have decimal := isPlainDecimal_toDigits n
  have value := groupedValue_toDigits n
  have some_ : Nat.toDigits 10 n ≠ [] := Nat.toDigits_ne_nil
  generalize Nat.toDigits 10 n = digits at all decimal value some_
  have plain : unsigned digits = digits := by
    unfold unsigned
    split
    · exact absurd (all '+' List.mem_cons_self) (by decide)
    · exact absurd (all '-' List.mem_cons_self) (by decide)
    · rfl
  unfold integer?
  split
  · exact absurd (all 'x' (by simp)) (by decide)
  · exact absurd (all 'o' (by simp)) (by decide)
  · exact absurd (all 'b' (by simp)) (by decide)
  · exact absurd (all '-' List.mem_cons_self) (by decide)
  · rw [plain, if_pos decimal, value]

theorem scalar?_toDigits {n : Nat} (fits : n < UInt64.size) :
    scalar? (Nat.toDigits 10 n) = some (.integer n) := by
  have all : ∀ c ∈ Nat.toDigits 10 n, isDigit c = true := fun c => isDigit_of_mem_toDigits
  have notTrue : Nat.toDigits 10 n ≠ ['t', 'r', 'u', 'e'] := by
    intro same
    exact absurd (all 't' (by simp [same])) (by decide)
  have notFalse : Nat.toDigits 10 n ≠ ['f', 'a', 'l', 's', 'e'] := by
    intro same
    exact absurd (all 'f' (by simp [same])) (by decide)
  have inside : isInRange (n : Int) = true := by
    have size : UInt64.size = 18446744073709551616 := rfl
    rw [size] at fits
    simp only [isInRange, Bool.and_eq_true, decide_eq_true_eq, size]
    omega
  rw [scalar?, if_neg notTrue, if_neg notFalse, integer?_toDigits]
  simp only [inside, if_true]

/-! Lines -/

/-- What it takes for a line to be an assignment. -/
theorem readLine_assign {first : Char} {tail rest behind last : List Char} {key : List String}
    {value : Value} (letter : isKeyChar first = true)
    (named : readKey (first :: tail) = some (key, '=' :: rest))
    (read : readValue (rest.length + 1) maxDepth (skipBlanks rest) = some (value, behind))
    (ends : endLine behind = some last) :
    readLine (first :: tail) = some (some (.assign key value), last) := by
  have other {mark : Char} (foreign : isKeyChar mark = false) {more : List Char} :
      first :: tail ≠ mark :: more := by
    intro same
    rw [(List.cons.inj same).1, foreign] at letter
    cases letter
  have line : skipBlanks (first :: tail) = first :: tail := by
    refine List.dropWhile_cons_of_neg fun blank => ?_
    simp only [Bool.or_eq_true, beq_iff_eq] at blank
    rcases blank with rfl | rfl <;> cases letter
  unfold readLine
  rw [line]
  split
  · rename_i same
    cases same
  · rename_i same
    exact absurd same (other (by decide))
  · rename_i same
    exact absurd same (other (by decide))
  · rename_i same
    exact absurd same (other (by decide))
  · rename_i same
    exact absurd same (other (by decide))
  · rename_i same
    exact absurd same (other (by decide))
  · simp only [named, bind, Option.bind, pure, read, ends]

theorem readValue_digits {c : Char} {more rest : List Char} {value : Value}
    (all : ∀ d ∈ c :: more, isDigit d = true) (scalar : scalar? (c :: more) = some value)
    (fuel room : Nat) :
    readValue (fuel + 1) room (c :: more ++ '\n' :: rest) = some (value, '\n' :: rest) := by
  have digit : isDigit c = true := all c List.mem_cons_self
  have word : splitWord (c :: more ++ '\n' :: rest) = (c :: more, '\n' :: rest) := by
    have chars : ∀ d ∈ c :: more, isWordChar d = true := by
      intro d member
      simp [isWordChar, all d member]
    have stop : List.takeWhile isWordChar ('\n' :: rest) = [] := rfl
    have behind : List.dropWhile isWordChar ('\n' :: rest) = '\n' :: rest := rfl
    rw [splitWord, List.takeWhile_append_of_pos chars, List.dropWhile_append_of_pos chars, stop,
      behind, List.append_nil]
    rfl
  have other {mark : Char} (foreign : isDigit mark = false) {tail : List Char} :
      c :: more ++ '\n' :: rest ≠ mark :: tail := fun same =>
    ne_of_isDigit digit foreign (List.cons.inj same).1
  unfold readValue
  split
  · rename_i same
    exact absurd same (other (by decide))
  · rename_i same
    exact absurd same (other (by decide))
  · rename_i same
    exact absurd same (other (by decide))
  · rename_i same
    exact absurd same (other (by decide))
  · rename_i same
    exact absurd same (other (by decide))
  · rename_i same
    exact absurd same (other (by decide))
  · rw [word]
    simp only [scalar]
    rfl

theorem readLine_bucketCount {n : Nat} (fits : n < UInt64.size) (rest : List Char) :
    readLine ("bucket_count = ".toList ++ Nat.toDigits 10 n ++ '\n' :: rest) =
      some (some (.assign ["bucket_count"] (.integer n)), rest) := by
  have all : ∀ c ∈ Nat.toDigits 10 n, isDigit c = true := fun c => isDigit_of_mem_toDigits
  have some_ : Nat.toDigits 10 n ≠ [] := Nat.toDigits_ne_nil
  have value := scalar?_toDigits fits
  generalize Nat.toDigits 10 n = digits at all some_ value
  obtain ⟨c, more, rfl⟩ := List.exists_cons_of_ne_nil some_
  have digit : isDigit c = true := all c List.mem_cons_self
  have blanks : skipBlanks (' ' :: (c :: more ++ '\n' :: rest)) = c :: more ++ '\n' :: rest := by
    have notBlank : (c == ' ' || c == '\t') = false := by
      simp [ne_of_isDigit digit (by decide : isDigit ' ' = false),
        ne_of_isDigit digit (by decide : isDigit '\t' = false)]
    rw [skipBlanks, List.dropWhile_cons_of_pos rfl, List.cons_append,
      List.dropWhile_cons_of_neg (by simpa using notBlank)]
  obtain ⟨tail, whole⟩ : ∃ tail, "bucket_count = ".toList ++ (c :: more) ++ '\n' :: rest =
    'b' :: tail := ⟨_, rfl⟩
  have key : readKey ("bucket_count = ".toList ++ (c :: more) ++ '\n' :: rest) =
      some (["bucket_count"], '=' :: ' ' :: (c :: more ++ '\n' :: rest)) := rfl
  have ends : endLine ('\n' :: rest) = some rest := rfl
  rw [whole] at key ⊢
  refine readLine_assign (by decide) key ?_ ends
  rw [blanks]
  exact readValue_digits all value _ _

/-- The line behind it. -/
def routerLine : List Char := "router = \"crc32\"\n".toList

theorem readLine_router :
    readLine routerLine = some (some (.assign ["router"] (.string "crc32")), []) := by
  have whole : routerLine = 'r' :: "outer = \"crc32\"\n".toList := by decide
  have key : readKey ('r' :: "outer = \"crc32\"\n".toList) =
      some (["router"], '=' :: " \"crc32\"\n".toList) := by decide +kernel
  have value : skipBlanks " \"crc32\"\n".toList = '"' :: "crc32\"\n".toList := by decide
  have text : readString ('"' :: "crc32\"\n".toList) = some ("crc32", ['\n']) := by
    decide +kernel
  have ends : endLine ['\n'] = some [] := rfl
  rw [whole]
  refine readLine_assign (by decide) key ?_ ends
  rw [value]
  unfold readValue
  simp only [text, bind, Option.bind, pure]

/-! A document -/

theorem print?_cons {key line text : String} {value : Value} {rest : Entries}
    (first : written? value = some line) (others : print? rest = some text) :
    print? ((key, value) :: rest) = some (key ++ " = " ++ line ++ "\n" ++ text) := by
  rw [print?, first, others]
  rfl

theorem print?_layout {n : Nat} (fits : n < UInt64.size) :
    ∃ text, print? (Layout.ofCount n).entries = some text ∧
      text.toList = "bucket_count = ".toList ++ Nat.toDigits 10 n ++ '\n' :: routerLine := by
  have number : written? (.integer n) = some (toString n) := by
    have small : -0x8000000000000000 ≤ (n : Int) ∧ (n : Int) < UInt64.size :=
      ⟨by omega, Int.ofNat_lt.mpr fits⟩
    rw [written?, if_pos small]
    rfl
  have name : written? (.string Layout.checksumRouter) = some "\"crc32\"" := by decide +kernel
  have behind : "\n".toList ++
      ("router".toList ++ (" = ".toList ++ ("\"crc32\"".toList ++ ("\n".toList ++ "".toList)))) =
        '\n' :: routerLine := by decide
  have front : "bucket_count".toList ++ " = ".toList = "bucket_count = ".toList := by decide
  have digits : (toString n).toList = Nat.toDigits 10 n := by
    rw [Nat.toString_eq_ofList_toDigits, String.toList_ofList]
  refine ⟨"bucket_count" ++ " = " ++ toString n ++ "\n" ++
    ("router" ++ " = " ++ "\"crc32\"" ++ "\n" ++ ""), ?_, ?_⟩
  · exact print?_cons number (print?_cons name rfl)
  · simp only [String.toList_append, List.append_assoc, behind, digits]
    rw [← List.append_assoc, front]

theorem statements?_layout {n : Nat} (fits : n < UInt64.size) {text : String}
    (written : text.toList =
      "bucket_count = ".toList ++ Nat.toDigits 10 n ++ '\n' :: routerLine) :
    statements? text =
      some [.assign ["bucket_count"] (.integer n), .assign ["router"] (.string "crc32")] := by
  have first := readLine_bucketCount fits routerLine
  have long : 2 ≤ ("bucket_count = ".toList ++ Nat.toDigits 10 n ++ '\n' :: routerLine).length := by
    have router : routerLine.length = 17 := by decide
    rw [List.length_append, List.length_cons]
    omega
  have mark : dropMark ("bucket_count = ".toList ++ Nat.toDigits 10 n ++ '\n' :: routerLine) =
      "bucket_count = ".toList ++ Nat.toDigits 10 n ++ '\n' :: routerLine := rfl
  unfold statements?
  rw [written]
  dsimp only
  rw [mark]
  generalize "bucket_count = ".toList ++ Nat.toDigits 10 n ++ '\n' :: routerLine = chars
    at first long
  have some_ : chars ≠ [] := by
    rintro rfl
    cases long
  obtain ⟨fuel, length⟩ := Nat.exists_eq_add_of_le' long
  have last : readLines (fuel + 1) routerLine =
      some [.assign ["router"] (.string "crc32")] := by
    have more : routerLine ≠ [] := by decide
    rw [readLines, readLine_router]
    · simp [readLines]
    · exact more
  rw [length, readLines, first]
  · simp [last]
  · exact some_

namespace Library

/-- What the library writes for a layout, if it writes anything, it reads as that layout. -/
def Keeps (toml : Library) (layout : Layout) : Prop :=
  ∀ text, toml.write layout.entries = some text →
    (toml.read text).bind Layout.ofEntries? = some layout

/-- Layouts with as many buckets as a word can count are kept. -/
theorem own_keeps {n : Nat} (fits : n < UInt64.size) : own.Keeps (.ofCount n) := by
  intro text wrote
  obtain ⟨_, printed, written⟩ := print?_layout fits
  cases printed.symm.trans wrote
  have count : (Value.integer n).natural? UInt64.size = some n := if_pos fits
  have read : own.read text =
      some [("bucket_count", .integer n), ("router", .string "crc32")] := by
    change document? text = _
    rw [document?, statements?_layout fits written]
    rfl
  rw [read]
  change ((Value.integer n).natural? UInt64.size).bind _ = _
  rw [count]
  rfl

end Library

end Toml

/-! The recorded layout -/

namespace DataDirectory

variable {directory : DataDirectory} {toml : Toml.Library} {disk after : Disk}
variable {place count : Nat} {mine : List String}

/-- The layout of so many buckets is recorded in the directory at a place. -/
def Records (directory : DataDirectory) (toml : Toml.Library) (disk : Disk) (place count : Nat) :
    Prop :=
  ∃ number text, disk.Leads directory.layoutPath place Layout.fileName number ∧
    disk.content number = utf8 text ∧
    (toml.read text).bind Layout.ofEntries? = some (.ofCount count)

namespace Records

theorem aside (records : directory.Records toml disk place count)
    (aside : disk.Aside place mine after) (foreign : Layout.fileName ∉ mine) :
    directory.Records toml after place count := by
  obtain ⟨number, text, leads, content, read⟩ := records
  exact ⟨number, text, aside.leads leads foreign, (aside.content foreign leads.node).trans content,
    read⟩

theorem loadLayout (records : directory.Records toml disk place count) :
    directory.loadLayout toml disk = .ok (some (.ofCount count)) := by
  obtain ⟨number, text, leads, content, means⟩ := records
  have read : disk.readText directory.layoutPath = .ok text := by
    rw [Disk.readText, Disk.readBytes, leads.openFile]
    simp only [Functor.map, Except.map, content, ofUtf8?_utf8]
  rw [DataDirectory.loadLayout, read]
  simp only [means]

theorem ensureLayout (records : directory.Records toml disk place count) (configured : Nat) :
    directory.ensureLayout toml disk (.ofCount configured) =
      (if configured = count then .ok ()
        else .error (.layoutMismatch (.ofCount count) (.ofCount configured)), disk) := by
  have same : Layout.ofCount count = Layout.ofCount configured ↔ configured = count := by
    simp [Layout.ofCount, eq_comm]
  rw [DataDirectory.ensureLayout, records.loadLayout]
  simp only [checkLayout, same]

end Records

end DataDirectory

end DeliveryQueue
