import DeliveryQueue.Toml.Document
import DeliveryQueue.Toml.Printer

/-!
What the stores and their settings need of TOML. Files are read and written through a library that
is a parameter of all that touches them; the reader and the writer of this project are one such
library.
-/
namespace DeliveryQueue.Toml

structure Library where
  /-- The entries of a document, unless the text is none. -/
  read : String → Option Entries
  /-- A document with these entries, unless they cannot be written. -/
  write : Entries → Option String

def Library.own : Library := ⟨document?, print?⟩

end DeliveryQueue.Toml
