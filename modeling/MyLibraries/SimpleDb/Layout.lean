import MyLibraries.SimpleDb.Requests

/-!
# The layout of a `simple_db` image

An `Entry` is encoded as its tag, a null, its type, its size and its data; the body of an
image is the encodings of its entries one after another. With a one-byte enum the type is
the type byte of the row, so an entry is a row that says what its type byte holds
(`Entry.row`), and the walk and the field reads are those of the rows.
-/

namespace MyLibraries.SimpleDb

open Memory

/-- An entry with a null-free tag whose whole encoding has a 16-bit size. -/
structure Entry where
  tag : CString
  type : DbDataType
  data : List UInt8
  fits : tag.1.length + data.length + 4 ≤ 65535
  deriving DecidableEq

def Entry.encode (e : Entry) : List UInt8 :=
  e.tag.1 ++ [0] ++ leBytes 1 e.type.code ++ leBytes 2 e.data.length ++ e.data

/-- The body of an image. -/
def encode (es : List Entry) : List UInt8 := es.flatMap Entry.encode

/-- The recorded size of an image. -/
def imageSize (es : List Entry) : Nat := 8 + (encode es).length

/-- The row of an entry. -/
def Entry.row (e : Entry) : Row :=
  ⟨e.tag, UInt8.ofNat e.type.code, e.data, by have := e.fits; omega⟩

variable {e : Entry} {es pre post : List Entry} {db : Mem} {p : Nat} {env : Env}

theorem Entry.encode_length (e : Entry) :
    e.encode.length = e.tag.1.length + e.data.length + 4 := by
  simp only [Entry.encode, List.length_append, List.length_singleton, leBytes_length]
  omega

@[simp] theorem encode_nil : encode [] = [] := rfl

@[simp] theorem encode_cons : encode (e :: es) = e.encode ++ encode es := rfl

@[simp] theorem encode_append : encode (pre ++ post) = encode pre ++ encode post := by
  simp [encode]

theorem encodeRows_row (es : List Entry) : encodeRows (es.map Entry.row) = encode es := by
  rw [encodeRows, encode, List.flatMap_map]
  rfl

/-- An entry with another, non-empty tag does not stop the walk. -/
theorem Entry.passable {tag : List UInt8} (hne : e.tag.1 ≠ tag) (hnil : e.tag.1 ≠ []) :
    e.row.Passable tag := by
  have hfits := e.fits
  exact ⟨hne, hnil, show e.tag.1.length < 2 ^ 16 by omega⟩

theorem Entry.row_type (e : Entry) : e.row.slot.toNat = e.type.code := toNat_code _

end MyLibraries.SimpleDb
