import Mathlib.Data.List.Basic

/-! Commands on a state that may end with an exception. What they changed before it stays changed,
so an invariant has to hold at either end. -/
namespace RoqCme.Lib
variable {σ ε ε' α : Type*}

/-- The state afterwards and, if the command ended early, the exception. -/
def Command (σ ε : Type*) := σ → σ × Option ε

namespace Command

def skip : Command σ ε := fun s => (s, none)

def update (f : σ → σ) : Command σ ε := fun s => (f s, none)

def throw (e : ε) : Command σ ε := fun s => (s, some e)

def andThen (c d : Command σ ε) : Command σ ε := fun s =>
  match (c s).2 with
  | none => d (c s).1
  | some _ => c s

/-- The same command with its exceptions under another type. -/
def mapError (f : ε → ε') (c : Command σ ε) : Command σ ε' := fun s => ((c s).1, (c s).2.map f)

theorem andThen_of_none {c d : Command σ ε} {s : σ} (h : (c s).2 = none) :
    c.andThen d s = d (c s).1 := by
  rw [andThen, h]

theorem andThen_of_some {c d : Command σ ε} {s : σ} {e : ε} (h : (c s).2 = some e) :
    c.andThen d s = c s := by
  rw [andThen, h]

theorem skip_andThen (c : Command σ ε) : skip.andThen c = c := rfl

theorem andThen_skip (c : Command σ ε) : c.andThen skip = c := by
  funext s
  cases h : (c s).2 with
  | none =>
    rw [andThen_of_none h]
    exact Prod.ext rfl h.symm
  | some e => rw [andThen_of_some h]

def all : List (Command σ ε) → Command σ ε
  | [] => skip
  | c :: cs => c.andThen (all cs)

theorem mapError_all (f : ε → ε') (cs : List (Command σ ε)) :
    mapError f (all cs) = all (cs.map (mapError f)) := by
  induction cs with
  | nil => rfl
  | cons c cs ih =>
    funext s
    rw [List.map_cons, all, all, ← ih]
    cases h : (c s).2 with
    | none =>
      have hc : (mapError f c s).2 = none := by rw [mapError, h]; rfl
      rw [andThen_of_none hc, mapError, andThen_of_none h]
      rfl
    | some e =>
      have hc : (mapError f c s).2 = some (f e) := by rw [mapError, h]; rfl
      rw [andThen_of_some hc, mapError, andThen_of_some h]
      rfl

theorem all_update (f : α → σ → σ) (xs : List α) (s : σ) :
    all (xs.map fun x => (update (f x) : Command σ ε)) s =
      (xs.foldl (fun s x => f x s) s, none) := by
  induction xs generalizing s with
  | nil => rfl
  | cons x xs ih => exact ih (f x s)

/-- The command throws in no state. -/
def Returns (c : Command σ ε) : Prop := ∀ s, (c s).2 = none

theorem Returns.andThen {c d : Command σ ε} (hc : c.Returns) (hd : d.Returns) :
    (c.andThen d).Returns := by
  intro s
  rw [andThen_of_none (hc s)]
  exact hd _

theorem returns_all {cs : List (Command σ ε)} (h : ∀ c ∈ cs, c.Returns) : (all cs).Returns := by
  induction cs with
  | nil => exact fun _ => rfl
  | cons c cs ih => exact (h c (by simp)).andThen (ih fun d hd => h d (List.mem_cons_of_mem c hd))

/-- A run goes on after an exception, from the state it left. -/
def run (step : α → Command σ ε) (events : List α) (s : σ) : σ :=
  events.foldl (fun s e => (step e s).1) s

theorem run_append (step : α → Command σ ε) (events events' : List α) (s : σ) :
    run step (events ++ events') s = run step events' (run step events s) :=
  List.foldl_append

/-- Whichever way the command ends, it leads from `P` to `Q`. -/
def Triple (P : σ → Prop) (c : Command σ ε) (Q : σ → Prop) : Prop := ∀ s, P s → Q (c s).1

/-- The command keeps the invariant. -/
def Keeps (I : σ → Prop) (c : Command σ ε) : Prop := Triple I c I

variable {I P Q : σ → Prop}

theorem keeps_skip : Keeps I (skip : Command σ ε) := fun _ h => h

theorem keeps_update {f : σ → σ} (h : ∀ s, I s → I (f s)) : Keeps I (update f : Command σ ε) := h

/-- The first command may end the sequence, so what it leads to has to imply the end result. -/
theorem Triple.andThen {c d : Command σ ε} (hc : Triple P c I) (hd : Triple I d Q)
    (hexit : ∀ s, I s → Q s) : Triple P (c.andThen d) Q := by
  intro s hs
  have h1 := hc s hs
  unfold Command.andThen
  cases (c s).2 with
  | none => exact hd _ h1
  | some e => exact hexit _ h1

theorem Keeps.andThen {c d : Command σ ε} (hc : Keeps I c) (hd : Keeps I d) :
    Keeps I (c.andThen d) :=
  Triple.andThen hc hd fun _ h => h

theorem keeps_all {cs : List (Command σ ε)} (h : ∀ c ∈ cs, Keeps I c) : Keeps I (all cs) := by
  induction cs with
  | nil => exact keeps_skip
  | cons c cs ih =>
    have hrest := ih fun d hd => h d (List.mem_cons_of_mem c hd)
    exact (h c (by simp)).andThen hrest

theorem Keeps.run {step : α → Command σ ε} (h : ∀ e, Keeps I (step e)) (events : List α) {s : σ}
    (hs : I s) : I (run step events s) := by
  induction events generalizing s with
  | nil => exact hs
  | cons e events ih => exact ih (h e s hs)

end Command
end RoqCme.Lib
