import RoqCme.Lib.Command
import RoqCme.Lib.Framing

/-! An event loop that also reads a stream of framed messages. However the stream is cut and
whatever happens between the pieces, the loop does what it would do if every message arrived whole,
with the piece that completes it (`run_expand`). -/
namespace RoqCme.Lib
variable {B M E ε σ κ α : Type*}

inductive LoopError (E ε : Type*) where
  | reading (error : PumpError E)
  | handling (error : ε)
  deriving DecidableEq, Repr

/-- A piece of the stream arrives, under some circumstances `c`, or something else happens. -/
inductive Occasion (κ B α : Type*) where
  | arrive (c : κ) (piece : List B)
  | act (a : α)
  deriving DecidableEq, Repr

def Occasion.piece : Occasion κ B α → List B
  | .arrive _ piece => piece
  | .act _ => []

def Occasion.other : Occasion κ B α → Option α
  | .arrive _ _ => none
  | .act a => some a

structure FramedLoop (B σ : Type*) where
  undrained : List B := []
  state : σ
  deriving DecidableEq, Repr

section Loop
variable (next : List B → Except E (Nat × Option M)) (handle : κ → M → Command σ ε)
variable (act : α → Command σ ε)

/-- Like `pump`, but a message is handled as soon as it is decoded. -/
def serve (c : κ) : Nat → List B → σ → (Nat × σ) × Option (LoopError E ε)
  | 0, _, s => ((0, s), some (.reading .outOfFuel))
  | fuel + 1, buffer, s =>
    if buffer = [] then ((0, s), none)
    else
      match next buffer with
      | .error e => ((0, s), some (.reading (.failed e)))
      | .ok (n, decoded) =>
        match Command.all (decoded.toList.map (handle c)) s with
        | (s, some e) => ((0, s), some (.handling e))
        | (s, none) =>
          if n = 0 then ((0, s), none)
          else
            let r := serve c fuel (buffer.drop n) s
            ((n + r.1.1, r.1.2), r.2)

/-- An exception leaves the buffer as it is, consumed or not. -/
def FramedLoop.step : Occasion κ B α → Command (FramedLoop B σ) (LoopError E ε)
  | .arrive c piece => fun l =>
    let buffer := l.undrained ++ piece
    let r := serve next handle c (buffer.length + 1) buffer l.state
    match r.2 with
    | none => (⟨buffer.drop r.1.1, r.1.2⟩, none)
    | some e => (⟨buffer, r.1.2⟩, some e)
  | .act a => fun l => (⟨l.undrained, (act a l.state).1⟩, (act a l.state).2.map .handling)

/-- The loop without the stream: messages arrive whole. -/
def wholeStep : κ × M ⊕ α → Command σ ε
  | .inl (c, m) => handle c m
  | .inr a => act a

end Loop

namespace Framing
variable {next : List B → Except E (Nat × Option M)} (F : Framing next)

/-- The number of messages that are complete within the first `n` elements of their stream. -/
def complete : List M → Nat → Nat
  | [], _ => 0
  | m :: ms, n =>
    if (F.frame m).length ≤ n then complete ms (n - (F.frame m).length) + 1 else 0

/-- The messages that become complete from the `n`-th to the `n'`-th element. -/
def due (ms : List M) (n n' : Nat) : List M := (ms.take (F.complete ms n')).drop (F.complete ms n)

/-- Every piece replaced by the messages that it completes, after `n` elements of the stream. -/
def expand (ms : List M) : Nat → List (Occasion κ B α) → List (κ × M ⊕ α)
  | _, [] => []
  | n, .arrive c piece :: occasions =>
    ((F.due ms n (n + piece.length)).map fun m => .inl (c, m)) ++
      expand ms (n + piece.length) occasions
  | n, .act a :: occasions => .inr a :: expand ms n occasions

theorem complete_stream (done rest : List M) (part : List B) (hp : F.PartOfNext part rest) :
    F.complete (done ++ rest) (F.stream done ++ part).length = done.length := by
  induction done with
  | nil =>
    cases rest with
    | nil => rfl
    | cons m rest =>
      have hlt : part.length < (F.frame m).length := by
        refine Nat.lt_of_le_of_ne hp.1.length_le ?_
        intro he
        exact hp.2 (hp.1.eq_of_length he)
      simp only [List.nil_append, complete, stream, List.flatMap_nil]
      exact if_neg (Nat.not_le_of_lt hlt)
  | cons m done ih =>
    have hlen : (F.stream (m :: done) ++ part).length =
        (F.frame m).length + (F.stream done ++ part).length := by
      rw [F.stream_cons, List.append_assoc, List.length_append]
    rw [hlen, List.cons_append, complete, if_pos (Nat.le_add_right _ _), Nat.add_sub_cancel_left, ih,
      List.length_cons]

theorem complete_mono (ms : List M) {n n' : Nat} (h : n ≤ n') :
    F.complete ms n ≤ F.complete ms n' := by
  induction ms generalizing n n' with
  | nil => exact Nat.le_refl _
  | cons m ms ih =>
    simp only [complete]
    split
    · next hn =>
      rw [if_pos (Nat.le_trans hn h)]
      exact Nat.succ_le_succ (ih (Nat.sub_le_sub_right h _))
    · exact Nat.zero_le _

theorem due_zero (ms : List M) (n : Nat) : F.due ms 0 n = ms.take (F.complete ms n) := by
  have hzero : F.complete ms 0 = 0 := by
    cases ms with
    | nil => rfl
    | cons m ms =>
      have hlen : 0 < (F.frame m).length := List.length_pos_of_ne_nil (F.frame_ne_nil m)
      exact if_neg (Nat.not_le_of_lt hlen)
  rw [due, hzero, List.drop_zero]

theorem due_append (ms : List M) {n n' n'' : Nat} (h : n ≤ n') (h' : n' ≤ n'') :
    F.due ms n n' ++ F.due ms n' n'' = F.due ms n n'' := by
  have hle := F.complete_mono ms h
  have hle' := F.complete_mono ms h'
  have htake : ms.take (F.complete ms n') =
      (ms.take (F.complete ms n'')).take (F.complete ms n') := by
    rw [List.take_take, Nat.min_eq_left hle']
  have hsplit := List.take_append_drop (F.complete ms n' - F.complete ms n)
    ((ms.take (F.complete ms n'')).drop (F.complete ms n))
  rw [List.drop_drop, Nat.add_sub_cancel' hle] at hsplit
  rw [due, due, due, htake, ← hsplit, List.drop_take]

/-- Each message that is complete at the end occurs once, in the order of the stream. -/
theorem expand_messages (ms : List M) (n : Nat) (occasions : List (Occasion κ B α)) :
    (F.expand ms n occasions).filterMap (fun e => e.getLeft?.map Prod.snd) =
      F.due ms n (n + (occasions.flatMap Occasion.piece).length) := by
  induction occasions generalizing n with
  | nil => simp [expand, due]
  | cons o occasions ih =>
    cases o with
    | arrive c piece =>
      have hmap : ((F.due ms n (n + piece.length)).map fun m => (.inl (c, m) : κ × M ⊕ α)).filterMap
          (fun e => e.getLeft?.map Prod.snd) = F.due ms n (n + piece.length) := by
        rw [List.filterMap_map]
        exact List.filterMap_some
      rw [expand, List.filterMap_append, hmap, ih, F.due_append ms (by omega) (by omega),
        List.flatMap_cons, List.length_append, Occasion.piece, Nat.add_assoc]
    | act a =>
      rw [expand, List.filterMap_cons_none rfl, ih]
      rfl

/-- What else happens is left as it is. -/
theorem expand_acts (ms : List M) (n : Nat) (occasions : List (Occasion κ B α)) :
    (F.expand ms n occasions).filterMap Sum.getRight? =
      occasions.filterMap Occasion.other := by
  induction occasions generalizing n with
  | nil => rfl
  | cons o occasions ih =>
    cases o with
    | arrive c piece =>
      have hmap : ((F.due ms n (n + piece.length)).map fun m =>
          (.inl (c, m) : κ × M ⊕ α)).filterMap Sum.getRight? = [] := by
        rw [List.filterMap_map, List.filterMap_eq_nil_iff]
        exact fun _ _ => rfl
      rw [expand, List.filterMap_append, hmap, List.nil_append, ih, List.filterMap_cons_none rfl]
    | act a => simp only [expand, List.filterMap_cons, Sum.getRight?, ih, Occasion.other]

variable {handle : κ → M → Command σ ε} {act : α → Command σ ε}

/-- Whole frames followed by a part of the next one, if no handler throws. -/
theorem serve_stream (c : κ) (done rest : List M) (part : List B) (fuel : Nat)
    (hv : ∀ m ∈ done ++ rest, F.Valid m) (hp : F.PartOfNext part rest)
    (hok : ∀ m ∈ done, (handle c m).Returns)
    (hfuel : (F.stream done ++ part).length < fuel) (s : σ) :
    serve next handle c fuel (F.stream done ++ part) s =
      (((F.stream done).length, Command.run (handle c) done s), none) := by
  induction done generalizing fuel s with
  | nil =>
    obtain ⟨fuel, rfl⟩ : ∃ n, fuel = n + 1 := ⟨fuel - 1, by omega⟩
    have hnil : F.stream [] = [] := rfl
    rw [hnil, List.nil_append, serve]
    by_cases he : part = []
    · rw [if_pos he]
      rfl
    · cases rest with
      | nil => exact absurd hp he
      | cons m rest =>
        rw [if_neg he, F.next_part m part (hv m (by simp)) hp.1 hp.2 he]
        rfl
  | cons m done ih =>
    obtain ⟨fuel, rfl⟩ : ∃ n, fuel = n + 1 := ⟨fuel - 1, by omega⟩
    have hlen : 0 < (F.frame m).length := List.length_pos_of_ne_nil (F.frame_ne_nil m)
    have hne : F.frame m ++ (F.stream done ++ part) ≠ [] := by
      simp [F.frame_ne_nil m]
    have hm : Command.all ((some m).toList.map (handle c)) s = ((handle c m s).1, none) := by
      have hnone := hok m (by simp) s
      simp only [Option.toList_some, List.map_cons, List.map_nil, Command.all]
      rw [Command.andThen_of_none hnone]
      rfl
    rw [F.stream_cons, List.append_assoc] at hfuel ⊢
    have hrest := ih fuel (fun m' hm' => hv m' (List.mem_cons_of_mem m hm'))
      (fun m' hm' => hok m' (List.mem_cons_of_mem m hm')) (by
        simp only [List.length_append] at hfuel ⊢
        omega) (handle c m s).1
    rw [serve, if_neg hne, F.next_frame m _ (hv m (by simp))]
    simp only [hm, List.drop_left, hrest, List.length_append]
    rw [if_neg (by omega)]
    rfl

/-- The loop is in step with its stream: what it keeps is the part of the next message. -/
theorem run_expand {ms : List M} (hv : ∀ m ∈ ms, F.Valid m)
    (hok : ∀ c, ∀ m ∈ ms, (handle c m).Returns) (occasions : List (Occasion κ B α))
    {done rest : List M} {part : List B} (hms : ms = done ++ rest) (hp : F.PartOfNext part rest)
    (hpre : part ++ occasions.flatMap Occasion.piece <+: F.stream rest) (s : σ) :
    (Command.run (FramedLoop.step next handle act) occasions ⟨part, s⟩).state =
      Command.run (wholeStep handle act)
        (F.expand ms (F.stream done ++ part).length occasions) s := by
  induction occasions generalizing done rest part s with
  | nil => rfl
  | cons o occasions ih =>
    cases o with
    | act a => exact ih hms hp hpre _
    | arrive c piece =>
      rw [List.flatMap_cons, Occasion.piece, ← List.append_assoc] at hpre
      obtain ⟨new, rest', part', hrest, hbuf, hp'⟩ := F.prefix_stream rest (part ++ piece)
        ((List.prefix_append _ _).trans hpre)
      have hms' : ms = (done ++ new) ++ rest' := by rw [hms, hrest, List.append_assoc]
      have hv' : ∀ m ∈ new ++ rest', F.Valid m := by
        intro m hm
        apply hv
        rw [hms, hrest]
        exact List.mem_append_right _ hm
      have hok' : ∀ m ∈ new, (handle c m).Returns := by
        intro m hm
        apply hok c
        rw [hms']
        simp [hm]
      have hserve : serve next handle c ((F.stream new ++ part').length + 1)
          (F.stream new ++ part') s =
          (((F.stream new).length, Command.run (handle c) new s), none) :=
        F.serve_stream c new rest' part' _ hv' hp' hok' (Nat.lt_succ_self _) s
      have hstep : (FramedLoop.step next handle act (.arrive c piece) ⟨part, s⟩).1 =
          ⟨part', Command.run (handle c) new s⟩ := by
        simp only [FramedLoop.step, hbuf, hserve, List.drop_left]
      have hlength : (F.stream done ++ part).length + piece.length =
          (F.stream (done ++ new) ++ part').length := by
        rw [F.stream_append, List.append_assoc, ← hbuf]
        simp only [List.length_append, Nat.add_assoc]
      have hdue : F.due ms (F.stream done ++ part).length
          ((F.stream done ++ part).length + piece.length) = new := by
        rw [hlength, due, hms', F.complete_stream (done ++ new) rest' part' hp', ← hms', hms,
          F.complete_stream done rest part hp, ← hms, hms', List.take_left, List.drop_left]
      have hpre' : part' ++ occasions.flatMap Occasion.piece <+: F.stream rest' := by
        rw [hbuf, hrest, F.stream_append, List.append_assoc] at hpre
        exact List.prefix_append_right_inj _ |>.1 hpre
      have hnew : Command.run (wholeStep handle act)
          (new.map fun m => (.inl (c, m) : κ × M ⊕ α)) s = Command.run (handle c) new s := by
        rw [Command.run, Command.run, List.foldl_map]
        rfl
      have hrun := ih hms' hp' hpre' (Command.run (handle c) new s)
      rw [expand, hdue, hlength]
      simp only [Command.run, List.foldl_append, List.foldl_cons] at hrun hnew hstep ⊢
      rw [hstep, hrun, hnew]

end Framing
end RoqCme.Lib
