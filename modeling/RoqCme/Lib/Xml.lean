import RoqCme.Lib.Unwinding
import Mathlib.Data.List.DropRight
import Mathlib.Logic.Relation

/-! Streams of tags and text: how the text is cut into pieces, which elements are open, and
streams that only differ in what is written inside certain elements. -/
namespace RoqCme.Lib.Xml
variable {σ β : Type*}

abbrev Attributes := List (String × String)

inductive Event where
  | startElement (name : String) (attributes : Attributes)
  | endElement (name : String)
  | characterData (data : String)
  deriving DecidableEq, Repr

/-- The values of the attributes with that key. -/
def values (key : String) (attributes : Attributes) : List String :=
  (attributes.filter fun a => a.1 = key).map Prod.snd

/-- Every attribute with that key gets the value. -/
def recode (key value : String) (attributes : Attributes) : Attributes :=
  attributes.map fun a => if a.1 = key then (a.1, value) else a

section Attributes
variable {key value v : String} {attributes : Attributes}

theorem values_cons (a : String × String) : values key (a :: attributes) =
    if a.1 = key then a.2 :: values key attributes else values key attributes := by
  rw [values, List.filter_cons]
  by_cases h : a.1 = key
  · simp [h, values]
  · simp [h, values]

theorem recode_cons (a : String × String) : recode key value (a :: attributes) =
    (if a.1 = key then (a.1, value) else a) :: recode key value attributes := rfl

theorem map_fst_recode :
    (recode key value attributes).map Prod.fst = attributes.map Prod.fst := by
  rw [recode, List.map_map]
  apply List.map_congr_left
  intro a ha
  rw [Function.comp_apply]
  split <;> rfl

theorem values_recode : values key (recode key value attributes) =
    (values key attributes).map fun _ => value := by
  induction attributes with
  | nil => rfl
  | cons a attributes ih =>
    rw [recode_cons, values_cons, values_cons, ih]
    by_cases h : a.1 = key
    · simp [h]
    · simp [h]

theorem mem_values_recode (h : v ∈ values key (recode key value attributes)) : v = value := by
  rw [values_recode] at h
  obtain ⟨w, hw, rfl⟩ := List.mem_map.1 h
  rfl

/-- Only the keys decide whether there is a value. -/
theorem values_eq_nil_iff : values key attributes = [] ↔ key ∉ attributes.map Prod.fst := by
  rw [values, List.map_eq_nil_iff, List.filter_eq_nil_iff, List.mem_map, not_exists]
  constructor
  · intro h a ha
    exact h a ha.1 (decide_eq_true ha.2)
  · intro h a ha hkey
    exact h a ⟨ha, of_decide_eq_true hkey⟩

end Attributes

section Text

/-- `absl::ascii_isspace` -/
def isSpace (c : Char) : Bool := c ∈ [' ', '\t', '\n', '\x0b', '\x0c', '\r']

/-- `absl::StripLeadingAsciiWhitespace` and `absl::StripTrailingAsciiWhitespace` -/
def trim (value : String) : String :=
  String.ofList ((value.toList.dropWhile isSpace).rdropWhile isSpace)

/-- One piece of text is cut in two. -/
inductive Split : List Event → List Event → Prop
  | intro (before after : List Event) (a b : String) :
    Split (before ++ .characterData (a ++ b) :: after)
      (before ++ .characterData a :: .characterData b :: after)

/-- The same tags with the same text between them, however it is cut. -/
def Resplit : List Event → List Event → Prop := Relation.EqvGen Split

/-- What is seen of a run does not depend on the cuts, if it does not for a single text. -/
theorem resplit_run {step : σ → Event → σ} {view : σ → β}
    (hview : ∀ s t e, view s = view t → view (step s e) = view (step t e))
    (hcut : ∀ s a b, view (step (step s (.characterData a)) (.characterData b)) =
      view (step s (.characterData (a ++ b))))
    {f g : List Event} (h : Resplit f g) (s : σ) :
    view (g.foldl step s) = view (f.foldl step s) := by
  have hrest : ∀ es s t, view s = view t →
      view (List.foldl step s es) = view (es.foldl step t) := by
    intro es
    induction es with
    | nil => exact fun s t h => h
    | cons e es ih => exact fun s t h => ih _ _ (hview s t e h)
  induction h with
  | rel f g hfg =>
    cases hfg with
    | intro before after a b =>
      rw [List.foldl_append, List.foldl_append]
      exact hrest after _ _ (hcut (before.foldl step s) a b)
  | refl => rfl
  | symm f g hfg ih => exact ih.symm
  | trans f g h hfg hgh ihfg ihgh => exact ihgh.trans ihfg

end Text

section Elements

/-- The open elements, the innermost one first. -/
def next : List String → Event → List String
  | stack, .startElement name _ => name :: stack
  | stack, .endElement _ => stack.tail
  | stack, .characterData _ => stack

/-- There is an id, and none is empty. -/
def Identified (attributes : Attributes) : Prop :=
  values "id" attributes ≠ [] ∧ "" ∉ values "id" attributes

instance (attributes : Attributes) : Decidable (Identified attributes) :=
  inferInstanceAs (Decidable (_ ∧ _))

/-- An end tag closes the innermost element. An element of one of the kinds is identified, and not
opened within another one of its kind. -/
def Legal (kinds stack : List String) : Event → Prop
  | .startElement name attributes => name ∈ kinds → name ∉ stack ∧ Identified attributes
  | .endElement name => stack.head? = some name
  | .characterData _ => True

instance (kinds stack : List String) (e : Event) : Decidable (Legal kinds stack e) :=
  match e with
  | .startElement name attributes =>
    inferInstanceAs (Decidable (name ∈ kinds → name ∉ stack ∧ Identified attributes))
  | .endElement name => inferInstanceAs (Decidable (stack.head? = some name))
  | .characterData _ => isTrue trivial

def Nested (kinds : List String) (es : List Event) (stack : List String) : Prop :=
  Along next (Legal kinds) es stack

def Admissible (kinds : List String) (es : List Event) : Prop :=
  Nested kinds es [] ∧ es.foldl next [] = []

instance (kinds stack : List String) (es : List Event) : Decidable (Nested kinds es stack) :=
  inferInstanceAs (Decidable (Along next (Legal kinds) es stack))

instance (kinds : List String) (es : List Event) : Decidable (Admissible kinds es) :=
  inferInstanceAs (Decidable (_ ∧ _))

variable {kinds stack : List String} {kind name : String} {es xs ys : List Event}

theorem legal_end (h : Legal kinds stack (.endElement name)) :
    ∃ rest, stack = name :: rest := by
  cases stack with
  | nil => cases h
  | cons top rest =>
    cases Option.some.inj h
    exact ⟨rest, rfl⟩

theorem nested_append :
    Nested kinds (xs ++ ys) stack ↔ Nested kinds xs stack ∧ Nested kinds ys (xs.foldl next stack) :=
  along_append xs ys stack

theorem Nested.of_append (h : Nested kinds (xs ++ ys) stack) : Nested kinds xs stack :=
  (nested_append.1 h).1

/-- What every legal event preserves holds at the end. -/
theorem Nested.run_inv {step : σ → Event → σ} (I : List String → σ → Prop)
    (hstep : ∀ stack s e, Legal kinds stack e → I stack s → I (next stack e) (step s e))
    (h : Nested kinds es stack) {s : σ} (hs : I stack s) :
    I (es.foldl next stack) (es.foldl step s) := by
  induction es generalizing stack s with
  | nil => exact hs
  | cons e es ih => exact ih h.2 (hstep stack s e h.1 hs)

theorem count_next (hk : kind ∈ kinds) {e : Event} (he : Legal kinds stack e)
    (h : stack.count kind ≤ 1) : (next stack e).count kind ≤ 1 := by
  cases e with
  | startElement name attributes =>
    by_cases hn : name = kind
    · subst hn
      have hfresh := List.count_eq_zero.2 (he hk).1
      simp [next, hfresh]
    · rw [next, List.count_cons_of_ne hn]
      exact h
  | endElement name => exact Nat.le_trans ((List.tail_sublist stack).count_le kind) h
  | characterData data => exact h

/-- What is closed is no longer open. -/
theorem not_mem_of_count {rest : List String} (h : (kind :: rest).count kind ≤ 1) :
    kind ∉ rest := by
  rw [List.count_cons_self] at h
  exact List.count_eq_zero.1 (by omega)

theorem mem_next_iff {e : Event} (he : Legal kinds stack e)
    (hstart : ∀ attributes, e ≠ .startElement kind attributes) (hend : e ≠ .endElement kind) :
    kind ∈ next stack e ↔ kind ∈ stack := by
  cases e with
  | startElement name attributes =>
    have hname : kind ≠ name := fun hn => hstart attributes (by rw [hn])
    rw [next, List.mem_cons, or_iff_right hname]
  | endElement name =>
    obtain ⟨rest, rfl⟩ := legal_end he
    have hname : kind ≠ name := fun hn => hend (by rw [hn])
    rw [next, List.tail_cons, List.mem_cons, or_iff_right hname]
  | characterData data => rfl

/-- An element that is not open is not closed before it is opened. -/
theorem Nested.closed (h : Nested kinds es stack) (hs : kind ∉ stack)
    (hes : ∀ attributes, .startElement kind attributes ∉ es) :
    kind ∉ es.foldl next stack ∧ .endElement kind ∉ es := by
  induction es generalizing stack with
  | nil => exact ⟨hs, List.not_mem_nil⟩
  | cons e es ih =>
    have hstart : ∀ attributes, e ≠ .startElement kind attributes :=
      fun attributes he => hes attributes (he ▸ List.mem_cons_self)
    have hend : e ≠ .endElement kind := by
      intro he
      subst he
      obtain ⟨rest, rfl⟩ := legal_end h.1
      exact hs List.mem_cons_self
    have hnext : kind ∉ next stack e := by
      rw [mem_next_iff h.1 hstart hend]
      exact hs
    obtain ⟨hlast, hrest⟩ :=
      ih h.2 hnext fun attributes hmem => hes attributes (List.mem_cons_of_mem e hmem)
    refine ⟨hlast, ?_⟩
    rw [List.mem_cons, not_or]
    exact ⟨hend.symm, hrest⟩

/-- An element that is open stays so up to its end tag, and the next one of its kind comes after
that. -/
theorem Nested.remains (hk : kind ∈ kinds) (h : Nested kinds es stack) (hs : kind ∈ stack)
    (hes : .endElement kind ∉ es) :
    kind ∈ es.foldl next stack ∧ ∀ attributes, .startElement kind attributes ∉ es := by
  induction es generalizing stack with
  | nil => exact ⟨hs, fun _ => List.not_mem_nil⟩
  | cons e es ih =>
    rw [List.mem_cons, not_or] at hes
    have hstart : ∀ attributes, e ≠ .startElement kind attributes := by
      intro attributes he
      subst he
      exact (h.1 hk).1 hs
    have hnext := (mem_next_iff h.1 hstart (Ne.symm hes.1)).2 hs
    obtain ⟨hlast, hrest⟩ := ih h.2 hnext hes.2
    refine ⟨hlast, ?_⟩
    intro attributes
    rw [List.mem_cons, not_or]
    exact ⟨(hstart attributes).symm, hrest attributes⟩

/-- An element around another one is not closed inside it. -/
theorem Nested.outer {outer : String} (ho : outer ∈ kinds)
    {above : List String} (h : Nested kinds es (above ++ kind :: stack)) (hs : outer ∈ stack)
    (habove : outer ∉ above) (hes : .endElement kind ∉ es) : .endElement outer ∉ es := by
  induction es generalizing above with
  | nil => exact List.not_mem_nil
  | cons e es ih =>
    rw [List.mem_cons, not_or] at hes
    have hmem : outer ∈ above ++ kind :: stack := by simp [hs]
    rw [List.mem_cons, not_or]
    cases e with
    | startElement name attributes =>
      have hrest : Nested kinds es (name :: above ++ kind :: stack) := h.2
      have hnew : outer ∉ name :: above := by
        rw [List.mem_cons, not_or]
        refine ⟨?_, habove⟩
        intro hn
        subst hn
        exact (h.1 ho).1 hmem
      exact ⟨Event.noConfusion, ih hrest hnew hes.2⟩
    | endElement name =>
      cases above with
      | nil =>
        cases Option.some.inj h.1
        exact absurd rfl hes.1
      | cons top above =>
        cases Option.some.inj h.1
        rw [List.mem_cons, not_or] at habove
        refine ⟨?_, ih h.2 habove.2 hes.2⟩
        intro hn
        cases hn
        exact habove.1 rfl
    | characterData data => exact ⟨Event.noConfusion, ih h.2 habove hes.2⟩

/-- There is a first start tag with that name. -/
theorem exists_first_start {attributes : Attributes} (h : .startElement name attributes ∈ es) :
    ∃ before first after, es = before ++ .startElement name first :: after ∧
      ∀ attributes, .startElement name attributes ∉ before := by
  induction es with
  | nil => cases h
  | cons e es ih =>
    by_cases he : ∃ first, e = .startElement name first
    · obtain ⟨first, rfl⟩ := he
      exact ⟨[], first, es, rfl, fun _ => List.not_mem_nil⟩
    · rw [not_exists] at he
      have hmem := (List.mem_cons.1 h).resolve_left (Ne.symm (he attributes))
      obtain ⟨before, first, after, heq, hbefore⟩ := ih hmem
      refine ⟨e :: before, first, after, by rw [heq, List.cons_append], ?_⟩
      intro other
      rw [List.mem_cons, not_or]
      exact ⟨Ne.symm (he other), hbefore other⟩

/-- The events of one element, from its start tag to the first end tag with its name. -/
def IsElement (name : String) (element : List Event) : Prop :=
  ∃ attributes inner, element = .startElement name attributes :: (inner ++ [.endElement name]) ∧
    .endElement name ∉ inner

/-- Up to the end of the stream every open element is closed. -/
theorem Nested.exists_end (hk : kind ∈ kinds) (h : Nested kinds es stack) (hs : kind ∈ stack)
    (hes : kind ∉ es.foldl next stack) :
    ∃ inner rest, es = inner ++ .endElement kind :: rest ∧ .endElement kind ∉ inner := by
  have hmem : .endElement kind ∈ es := by
    by_contra hnot
    exact hes (h.remains hk hs hnot).1
  obtain ⟨inner, rest, heq, hinner⟩ := List.eq_append_cons_of_mem hmem
  exact ⟨inner, rest, heq, hinner⟩

end Elements

section Alike
variable {kinds stack : List String} {e e' : Event} {es es' : List Event}

/-- The same tag with the same keys, or text in both places. -/
inductive SameTag : Event → Event → Prop
  | startElement (name : String) {attributes attributes' : Attributes}
      (h : attributes'.map Prod.fst = attributes.map Prod.fst) :
      SameTag (.startElement name attributes) (.startElement name attributes')
  | endElement (name : String) : SameTag (.endElement name) (.endElement name)
  | characterData (data data' : String) : SameTag (.characterData data) (.characterData data')

theorem SameTag.refl (e : Event) : SameTag e e := by
  cases e with
  | startElement name attributes => exact .startElement name rfl
  | endElement name => exact .endElement name
  | characterData data => exact .characterData data data

theorem SameTag.next_eq (h : SameTag e e') (stack : List String) :
    next stack e' = next stack e := by
  cases h with
  | startElement name h => rfl
  | endElement name => rfl
  | characterData data data' => rfl

/-- The event belongs to an element of one of the kinds. -/
def Inside (kinds stack : List String) (e : Event) : Prop :=
  ∃ kind ∈ kinds, kind ∈ stack ∨ kind ∈ next stack e

instance (kinds stack : List String) (e : Event) : Decidable (Inside kinds stack e) :=
  inferInstanceAs (Decidable (∃ kind ∈ kinds, kind ∈ stack ∨ kind ∈ next stack e))

/-- Streams with the same tags, and with the same attributes and texts outside the elements of the
kinds. -/
inductive Alike (kinds : List String) : List String → List Event → List Event → Prop
  | nil (stack : List String) : Alike kinds stack [] []
  | cons {stack : List String} {e e' : Event} {es es' : List Event} (htag : SameTag e e')
      (hinside : Inside kinds stack e ∨ e' = e) (h : Alike kinds (next stack e) es es') :
      Alike kinds stack (e :: es) (e' :: es')

theorem Alike.next_eq (h : Alike kinds stack es es') :
    es'.foldl next stack = es.foldl next stack := by
  induction h with
  | nil stack => rfl
  | cons htag hinside h ih =>
    rw [List.foldl_cons, List.foldl_cons, htag.next_eq]
    exact ih

/-- Two runs that start in related states and read streams that are alike stay related, if the
events that differ keep the relation. -/
theorem Alike.run {step : σ → Event → σ} (R : List String → σ → σ → Prop)
    {C : List String → Event → Prop}
    (hstep : ∀ stack a b e e', Legal kinds stack e → Legal kinds stack e' → C stack e →
      SameTag e e' → Inside kinds stack e ∨ e' = e → R stack a b →
        R (next stack e) (step a e) (step b e'))
    (h : Alike kinds stack es es') (hes : Nested kinds es stack) (hes' : Nested kinds es' stack)
    (hC : Along next C es stack) {a b : σ} (hab : R stack a b) :
    R (es.foldl next stack) (es.foldl step a) (es'.foldl step b) := by
  induction h generalizing a b with
  | nil stack => exact hab
  | cons htag hinside h ih =>
    have hrest := hes'.2
    rw [htag.next_eq] at hrest
    exact ih hes.2 hrest hC.2 (hstep _ a b _ _ hes.1 hes'.1 hC.1 htag hinside hab)

/-- Every event is replaced, in view of the elements that are open there. -/
def replace (change : List String → Event → Event) : List String → List Event → List Event
  | _, [] => []
  | stack, e :: es => change stack e :: replace change (next stack e) es

theorem alike_replace {change : List String → Event → Event}
    (htag : ∀ stack e, SameTag e (change stack e))
    (hinside : ∀ stack e, Inside kinds stack e ∨ change stack e = e) (stack : List String)
    (es : List Event) : Alike kinds stack es (replace change stack es) := by
  induction es generalizing stack with
  | nil => exact .nil stack
  | cons e es ih => exact .cons (htag stack e) (hinside stack e) (ih (next stack e))

theorem nested_replace {change : List String → Event → Event}
    (htag : ∀ stack e, SameTag e (change stack e))
    (hlegal : ∀ stack e, Legal kinds stack e → Legal kinds stack (change stack e))
    (h : Nested kinds es stack) : Nested kinds (replace change stack es) stack := by
  induction es generalizing stack with
  | nil => trivial
  | cons e es ih =>
    refine ⟨hlegal stack e h.1, ?_⟩
    rw [(htag stack e).next_eq]
    exact ih h.2

theorem endElement_mem_replace {change : List String → Event → Event} {name : String}
    (htag : ∀ stack e, SameTag e (change stack e)) (h : .endElement name ∉ es) :
    .endElement name ∉ replace change stack es := by
  induction es generalizing stack with
  | nil => exact List.not_mem_nil
  | cons e es ih =>
    rw [List.mem_cons, not_or] at h
    rw [replace, List.mem_cons, not_or]
    refine ⟨?_, ih h.2⟩
    intro heq
    have hsame := htag stack e
    rw [← heq] at hsame
    cases hsame
    exact h.1 rfl

theorem replace_append (change : List String → Event → Event) (xs ys : List Event)
    (stack : List String) : replace change stack (xs ++ ys) =
      replace change stack xs ++ replace change (xs.foldl next stack) ys := by
  induction xs generalizing stack with
  | nil => rfl
  | cons x xs ih => rw [List.cons_append, replace, ih, replace, List.cons_append, List.foldl_cons]

end Alike

end RoqCme.Lib.Xml
