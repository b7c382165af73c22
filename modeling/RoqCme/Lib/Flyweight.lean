import Mathlib.Data.List.Basic

/-! Flyweights: a message is written into a buffer in place, a root block first and then the
entries of repeating groups, each behind a header. Only the sizes are fixed. -/
namespace RoqCme.Lib
variable {α M : Type*}

/-- Some bytes to overwrite; a patch need not set all of them. -/
structure Patch where
  length : Nat
  apply : List UInt8 → List UInt8
  length_apply : ∀ old, old.length = length → (apply old).length = length

/-- A field of `n` bytes, filled up with zeros. -/
def Patch.fixed (n : Nat) (bytes : List UInt8) : Patch where
  length := n
  apply _ := (bytes ++ List.replicate n 0).take n
  length_apply _ _ := by
    rw [List.length_take, List.length_append, List.length_replicate]
    omega

/-- The buffer and how far it is written. -/
structure BufferWriter where
  buffer : List UInt8
  position : Nat := 0
  deriving DecidableEq, Repr

namespace BufferWriter

def written (w : BufferWriter) : List UInt8 := w.buffer.take w.position

/-- A patch that does not fit is refused. -/
def put (w : BufferWriter) (p : Patch) : Option BufferWriter :=
  if w.position + p.length ≤ w.buffer.length then
    some { buffer := w.buffer.take w.position ++ p.apply ((w.buffer.drop w.position).take p.length) ++
             w.buffer.drop (w.position + p.length)
           position := w.position + p.length }
  else none

theorem put_position {w w' : BufferWriter} {p : Patch} (h : w.put p = some w') :
    w'.position = w.position + p.length := by
  unfold put at h
  split at h
  · cases h
    rfl
  · cases h

end BufferWriter

/-- The sizes of a repeating group: its header and one entry. -/
structure GroupSize where
  headerLength : Nat
  blockLength : Nat
  deriving DecidableEq, Repr

def GroupSize.length (g : GroupSize) (count : Nat) : Nat := g.headerLength + count * g.blockLength

/-- The length of a message from its root block on: one count for each group, in order, zero
where none is given. -/
def computeLength (blockLength : Nat) : List GroupSize → List Nat → Nat
  | [], _ => blockLength
  | g :: groups, [] => g.length 0 + computeLength blockLength groups []
  | g :: groups, count :: counts => g.length count + computeLength blockLength groups counts

/-- A repeating group of items `α`. The header may refuse a count. -/
structure RepeatingGroup (α : Type*) where
  size : GroupSize
  header : Nat → Option Patch
  entry : α → Patch
  header_length : ∀ count p, header count = some p → p.length = size.headerLength
  entry_length : ∀ item, (entry item).length = size.blockLength

namespace RepeatingGroup

/-- The header of a group: the size of an entry and the count, at most `limit`. -/
def sized (blockLength limit : Nat) (entry : α → List UInt8) : RepeatingGroup α where
  size := { headerLength := 3, blockLength := blockLength }
  header count :=
    if count ≤ limit then some (.fixed 3 [UInt8.ofNat blockLength, 0, UInt8.ofNat count]) else none
  entry item := .fixed blockLength (entry item)
  header_length count p h := by
    split at h
    · cases h
      rfl
    · cases h
  entry_length _ := rfl

def entries (g : RepeatingGroup α) : List α → BufferWriter → Option BufferWriter
  | [], w => some w
  | item :: items, w => (w.put (g.entry item)).bind (g.entries items)

def write (g : RepeatingGroup α) (items : List α) (w : BufferWriter) : Option BufferWriter :=
  (g.header items.length).bind fun p => (w.put p).bind (g.entries items)

theorem entries_position (g : RepeatingGroup α) (items : List α) {w w' : BufferWriter}
    (h : g.entries items w = some w') :
    w'.position = w.position + items.length * g.size.blockLength := by
  induction items generalizing w with
  | nil =>
    cases h
    simp
  | cons item items ih =>
    obtain ⟨w1, h1, h2⟩ := Option.bind_eq_some_iff.1 h
    rw [ih h2, BufferWriter.put_position h1, g.entry_length, List.length_cons, Nat.add_mul]
    omega

/-- A group takes its header and its entries. -/
theorem write_position (g : RepeatingGroup α) (items : List α) {w w' : BufferWriter}
    (h : g.write items w = some w') :
    w'.position = w.position + g.size.length items.length := by
  obtain ⟨p, hp, h⟩ := Option.bind_eq_some_iff.1 h
  obtain ⟨w1, h1, h2⟩ := Option.bind_eq_some_iff.1 h
  rw [g.entries_position items h2, BufferWriter.put_position h1, g.header_length _ p hp,
    GroupSize.length, Nat.add_assoc]

end RepeatingGroup

/-- The header and the root block of messages `M`, where all headers have one size. -/
structure Root (headerLength : Nat) (M : Type*) where
  blockLength : Nat
  header : Patch
  block : M → Patch
  header_length : header.length = headerLength
  block_length : ∀ value, (block value).length = blockLength

namespace Root
variable {headerLength : Nat}

def sized (headerLength : Nat) (header : List UInt8) (blockLength : Nat) (block : M → List UInt8) :
    Root headerLength M where
  blockLength := blockLength
  header := .fixed headerLength header
  block value := .fixed blockLength (block value)
  header_length := rfl
  block_length _ := rfl

def wrap (r : Root headerLength M) (value : M) (buffer : List UInt8) : Option BufferWriter :=
  (BufferWriter.put { buffer := buffer } r.header).bind fun w => w.put (r.block value)

theorem wrap_position (r : Root headerLength M) (value : M) {buffer : List UInt8} {w : BufferWriter}
    (h : r.wrap value buffer = some w) : w.position = headerLength + r.blockLength := by
  obtain ⟨w1, h1, h2⟩ := Option.bind_eq_some_iff.1 h
  rw [BufferWriter.put_position h2, BufferWriter.put_position h1, r.header_length, r.block_length,
    Nat.zero_add]

end Root
end RoqCme.Lib
