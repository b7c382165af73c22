import RoqCme.Lib.Xml

/-! Readers that collect the texts inside an element in a record, with a cursor on the field that
the text belongs to. The start tag of a field sets the cursor, almost any end tag resets it. -/
namespace RoqCme.Lib.Xml
variable {ρ φ : Type*}

section Stopping
variable {σ ε β : Type*} {thrown : σ → Bool} {handle : σ → ε → σ} {s : σ} {e : ε}

/-- Nothing is read after an exception. -/
def stopping (thrown : σ → Bool) (handle : σ → ε → σ) (s : σ) (e : ε) : σ :=
  if thrown s then s else handle s e

theorem stopping_of_thrown (h : thrown s = true) : stopping thrown handle s e = s := if_pos h

theorem stopping_of_not_thrown (h : thrown s = false) :
    stopping thrown handle s e = handle s e := by
  rw [stopping, h]
  rfl

theorem not_thrown_of_stopping (h : thrown (stopping thrown handle s e) = false) :
    thrown s = false := by
  rw [stopping] at h
  split at h
  · exact h
  · next ht => exact Bool.eq_false_iff.2 ht

/-- Two events that are seen as one, without an exception in between. -/
theorem stopping_stopping {view : σ → β} {a b ab : ε} (hkeep : thrown (handle s a) = thrown s)
    (h : view (handle (handle s a) b) = view (handle s ab)) :
    view (stopping thrown handle (stopping thrown handle s a) b) =
      view (stopping thrown handle s ab) := by
  cases ht : thrown s with
  | true => rw [stopping_of_thrown ht, stopping_of_thrown ht, stopping_of_thrown ht]
  | false =>
    rw [stopping_of_not_thrown ht, stopping_of_not_thrown (hkeep.trans ht),
      stopping_of_not_thrown ht]
    exact h

end Stopping

/-- What has been read of the element that is open. -/
structure Cursor (ρ φ : Type*) where
  id : String
  field : φ
  record : ρ

/-- A reader of the elements with one name. -/
structure RecordReader (ρ φ : Type*) where
  kind : String
  /-- Names of start tags and of end tags that have a handler of their own. -/
  starts : List String
  ends : List String
  initial : ρ
  undefined : φ
  /-- The start tag of the record, and those of its fields. -/
  identify : Attributes → String × ρ → String × ρ
  fieldOf : String → Option φ
  begin : φ → Attributes → ρ → ρ
  append : φ → String → ρ → ρ
  trim : φ → ρ → ρ
  ends_starts : ∀ name ∈ ends, name ∈ starts
  identified : ∀ attributes, Identified attributes → (identify attributes ("", initial)).1 ≠ ""
  append_undefined : ∀ data record, append undefined data record = record
  trim_undefined : ∀ record, trim undefined record = record

namespace RecordReader
variable (R : RecordReader ρ φ)

def start : Cursor ρ φ := { id := "", field := R.undefined, record := R.initial }

def startElement (c : Cursor ρ φ) (name : String) (attributes : Attributes) : Cursor ρ φ :=
  if name = R.kind then
    { c with
      id := (R.identify attributes (c.id, c.record)).1
      record := (R.identify attributes (c.id, c.record)).2 }
  else if name ∈ R.starts ∨ c.id = "" then c
  else
    match R.fieldOf name with
    | none => c
    | some field => { c with field := field, record := R.begin field attributes c.record }

def endElement (c : Cursor ρ φ) (name : String) : Cursor ρ φ :=
  if name = R.kind then { c with id := "", record := R.initial }
  else if name ∈ R.ends then c
  else { c with field := R.undefined, record := R.trim c.field c.record }

def step (c : Cursor ρ φ) : Event → Cursor ρ φ
  | .startElement name attributes => R.startElement c name attributes
  | .endElement name => R.endElement c name
  | .characterData data => { c with record := R.append c.field data c.record }

theorem startElement_id {name : String} (h : name ≠ R.kind) (c : Cursor ρ φ)
    (attributes : Attributes) : (R.startElement c name attributes).id = c.id := by
  rw [startElement, if_neg h]
  split
  · rfl
  · split <;> rfl

theorem endElement_id {name : String} (h : name ≠ R.kind) (c : Cursor ρ φ) :
    (R.endElement c name).id = c.id := by
  rw [endElement, if_neg h]
  split <;> rfl

/-- Outside the element nothing is kept. Inside it the id is known, and a cursor that is set is
going to be reset: an element is open, further inside, whose end tag does it. -/
structure Sound (stack : List String) (c : Cursor ρ φ) : Prop where
  once : stack.count R.kind ≤ 1
  closed : R.kind ∉ stack → c = R.start
  identified : R.kind ∈ stack → c.id ≠ ""
  set : c.field ≠ R.undefined →
    ∃ name ∈ stack.takeWhile fun n => n ≠ R.kind, name ∉ R.ends

variable {R} {kinds stack : List String} {c : Cursor ρ φ} {es : List Event}

theorem Sound.field_eq {rest : List String} (h : R.Sound (R.kind :: rest) c) :
    c.field = R.undefined := by
  by_contra hne
  obtain ⟨name, hname, hends⟩ := h.set hne
  simp at hname

theorem Sound.startElement (hk : R.kind ∈ kinds) (h : R.Sound stack c) {name : String}
    {attributes : Attributes} (he : Legal kinds stack (.startElement name attributes)) :
    R.Sound (name :: stack) (R.startElement c name attributes) := by
  have honce := count_next hk he h.once
  by_cases hkind : name = R.kind
  · -- the record is opened: nothing has been read yet
    subst hkind
    obtain ⟨hfresh, hid⟩ := he hk
    have hc := h.closed hfresh
    subst hc
    refine ⟨honce, ?_, ?_, ?_⟩
    · exact fun hnot => absurd List.mem_cons_self hnot
    · intro hmem
      rw [RecordReader.startElement, if_pos rfl]
      exact R.identified attributes hid
    · intro hset
      rw [RecordReader.startElement, if_pos rfl] at hset
      exact absurd rfl hset
  · have hmem : R.kind ∈ name :: stack ↔ R.kind ∈ stack := by
      rw [List.mem_cons, or_iff_right (Ne.symm hkind)]
    have hwhile : (name :: stack).takeWhile (fun n => n ≠ R.kind) =
        name :: stack.takeWhile fun n => n ≠ R.kind := by
      rw [List.takeWhile_cons_of_pos (by simpa using hkind)]
    have hkeep : R.Sound (name :: stack) c := by
      refine ⟨honce, ?_, ?_, ?_⟩
      · exact fun hnot => h.closed fun hin => hnot (hmem.2 hin)
      · exact fun hin => h.identified (hmem.1 hin)
      · intro hset
        obtain ⟨other, hother, hends⟩ := h.set hset
        rw [hwhile]
        exact ⟨other, List.mem_cons_of_mem name hother, hends⟩
    rw [RecordReader.startElement, if_neg hkind]
    by_cases hskip : name ∈ R.starts ∨ c.id = ""
    · rw [if_pos hskip]
      exact hkeep
    · rw [if_neg hskip]
      rw [not_or] at hskip
      cases R.fieldOf name with
      | none => exact hkeep
      | some field =>
        -- the element that is opened resets the cursor
        have hends : name ∉ R.ends := fun hin => hskip.1 (R.ends_starts name hin)
        refine ⟨honce, ?_, fun _ => hskip.2, ?_⟩
        · intro hnot
          have hc := hkeep.closed hnot
          rw [hc] at hskip
          exact absurd rfl hskip.2
        · intro hset
          rw [hwhile]
          exact ⟨name, List.mem_cons_self, hends⟩

theorem Sound.endElement {name : String} (h : R.Sound (name :: stack) c) :
    R.Sound stack (R.endElement c name) := by
  have honce : stack.count R.kind ≤ 1 := Nat.le_trans List.count_le_count_cons h.once
  by_cases hkind : name = R.kind
  · subst hkind
    have hclosed := not_mem_of_count h.once
    have hc : R.endElement c R.kind = R.start := by
      rw [RecordReader.endElement, if_pos rfl, RecordReader.start, h.field_eq]
    rw [hc]
    refine ⟨honce, fun _ => rfl, fun hin => absurd hin hclosed, ?_⟩
    exact fun hset => absurd rfl hset
  · have hmem : R.kind ∈ name :: stack ↔ R.kind ∈ stack := by
      rw [List.mem_cons, or_iff_right (Ne.symm hkind)]
    have hwhile : (name :: stack).takeWhile (fun n => n ≠ R.kind) =
        name :: stack.takeWhile fun n => n ≠ R.kind := by
      rw [List.takeWhile_cons_of_pos (by simpa using hkind)]
    rw [RecordReader.endElement, if_neg hkind]
    by_cases hends : name ∈ R.ends
    · rw [if_pos hends]
      refine ⟨honce, ?_, ?_, ?_⟩
      · exact fun hnot => h.closed fun hin => hnot (hmem.1 hin)
      · exact fun hin => h.identified (hmem.2 hin)
      · intro hset
        obtain ⟨other, hother, hnot⟩ := h.set hset
        rw [hwhile] at hother
        cases List.mem_cons.1 hother with
        | inl heq =>
          subst heq
          exact absurd hends hnot
        | inr hin => exact ⟨other, hin, hnot⟩
    · rw [if_neg hends]
      refine ⟨honce, ?_, fun hin => h.identified (hmem.2 hin), fun hset => absurd rfl hset⟩
      intro hnot
      have hc := h.closed fun hin => hnot (hmem.1 hin)
      subst hc
      rw [RecordReader.start, R.trim_undefined]

theorem Sound.characterData (h : R.Sound stack c) (data : String) :
    R.Sound stack { c with record := R.append c.field data c.record } := by
  refine ⟨h.once, ?_, h.identified, h.set⟩
  intro hnot
  have hc := h.closed hnot
  subst hc
  rw [RecordReader.start, R.append_undefined]

theorem Sound.step (hk : R.kind ∈ kinds) (h : R.Sound stack c) {e : Event}
    (he : Legal kinds stack e) : R.Sound (next stack e) (R.step c e) := by
  cases e with
  | startElement name attributes => exact h.startElement hk he
  | endElement name =>
    obtain ⟨rest, rfl⟩ := legal_end he
    exact h.endElement
  | characterData data => exact h.characterData data

theorem sound_start : R.Sound [] R.start where
  once := Nat.zero_le 1
  closed _ := rfl
  identified h := absurd h List.not_mem_nil
  set h := absurd rfl h

theorem run_sound (hk : R.kind ∈ kinds) (h : Nested kinds es []) :
    R.Sound (es.foldl next []) (es.foldl R.step R.start) :=
  h.run_inv R.Sound (fun _ _ _ he hs => hs.step hk he) sound_start

/-- Whatever was read, nothing of it is left outside the element. -/
theorem run_closed (hk : R.kind ∈ kinds) (h : Nested kinds es [])
    (hclosed : R.kind ∉ es.foldl next []) : es.foldl R.step R.start = R.start :=
  (run_sound hk h).closed hclosed

/-- A reader that does this and more, up to an exception. -/
theorem run_cursor {σ : Type*} {step : σ → Event → σ} {thrown : σ → Bool}
    {cursor : σ → Cursor ρ φ} (hthrown : ∀ s e, thrown (step s e) = false → thrown s = false)
    (hcursor : ∀ s e, thrown (step s e) = false → cursor (step s e) = R.step (cursor s) e)
    {s : σ} (h : thrown (es.foldl step s) = false) :
    thrown s = false ∧ cursor (es.foldl step s) = es.foldl R.step (cursor s) := by
  induction es generalizing s with
  | nil => exact ⟨h, rfl⟩
  | cons e es ih =>
    obtain ⟨hnext, hrun⟩ := ih h
    refine ⟨hthrown s e hnext, ?_⟩
    rw [List.foldl_cons, List.foldl_cons, hrun, hcursor s e hnext]

/-- What is read in an element depends on that element only. -/
theorem run_element (hk : R.kind ∈ kinds) {before inner : List Event} {attributes : Attributes}
    (h : Nested kinds (before ++ .startElement R.kind attributes :: inner) []) :
    (before ++ .startElement R.kind attributes :: inner).foldl R.step R.start =
      (Event.startElement R.kind attributes :: inner).foldl R.step R.start := by
  rw [nested_append] at h
  have hclosed := (h.2.1 hk).1
  rw [List.foldl_append, run_closed hk h.1 hclosed]

end RecordReader

end RoqCme.Lib.Xml
