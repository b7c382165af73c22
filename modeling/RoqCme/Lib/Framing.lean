import Mathlib.Data.List.Basic

/-! Streams of framed messages that are read in pieces. A reader keeps what it could not
decode yet; how the stream is cut into pieces makes no difference (`run_cut`). -/
namespace RoqCme.Lib
variable {B M E : Type*}

inductive PumpError (E : Type*) where
  | outOfFuel
  | failed (error : E)
  deriving DecidableEq, Repr

section Pump
variable (next : List B → Except E (Nat × Option M))

/-- Call `next` on the rest of the buffer until the buffer is empty or nothing is consumed. The
result is the number of elements consumed and what was decoded. -/
def pump : Nat → List B → Except (PumpError E) (Nat × List M)
  | 0, _ => .error .outOfFuel
  | fuel + 1, buffer =>
    if buffer = [] then .ok (0, [])
    else
      match next buffer with
      | .error e => .error (.failed e)
      | .ok (n, decoded) =>
        if n = 0 then .ok (0, decoded.toList)
        else
          match pump fuel (buffer.drop n) with
          | .error e => .error e
          | .ok (total, rest) => .ok (n + total, decoded.toList ++ rest)

/-- Every pass consumes something: one more pass than elements is enough. -/
theorem pump_terminates (fuel : Nat) (buffer : List B) (h : buffer.length < fuel) :
    pump next fuel buffer ≠ .error .outOfFuel := by
  induction fuel generalizing buffer with
  | zero => omega
  | succ fuel ih =>
    unfold pump
    split
    · simp
    · next hb =>
      split
      · simp
      · next n decoded _ =>
        split
        · simp
        · next hn =>
          have hlen : 0 < buffer.length := List.length_pos_of_ne_nil hb
          have hrest := ih (buffer.drop n) (by rw [List.length_drop]; omega)
          split
          · next e he =>
            intro hx
            cases hx
            exact hrest he
          · simp

/-- What has not been consumed, and what has been decoded so far. -/
structure Reader (B M : Type*) where
  undrained : List B := []
  decoded : List M := []
  deriving DecidableEq, Repr

/-- New elements arrive behind those not consumed; afterwards the consumed ones are dropped. -/
def Reader.read (r : Reader B M) (piece : List B) : Except (PumpError E) (Reader B M) :=
  let buffer := r.undrained ++ piece
  match pump next (buffer.length + 1) buffer with
  | .error e => .error e
  | .ok (total, decoded) => .ok ⟨buffer.drop total, r.decoded ++ decoded⟩

def Reader.run : List (List B) → Reader B M → Except (PumpError E) (Reader B M)
  | [], r => .ok r
  | piece :: pieces, r =>
    match r.read next piece with
    | .error e => .error e
    | .ok r => Reader.run pieces r

end Pump

/-- Frames of valid messages that `next` recognises: a whole frame at the front is decoded
whatever follows it, and a part of a frame is left alone. -/
structure Framing (next : List B → Except E (Nat × Option M)) where
  frame : M → List B
  Valid : M → Prop
  frame_ne_nil : ∀ m, frame m ≠ []
  next_frame : ∀ m tail, Valid m → next (frame m ++ tail) = .ok ((frame m).length, some m)
  next_part : ∀ m part, Valid m → part <+: frame m → part ≠ frame m → part ≠ [] →
    next part = .ok (0, none)

namespace Framing
variable {next : List B → Except E (Nat × Option M)} (F : Framing next)

def stream (ms : List M) : List B := ms.flatMap F.frame

/-- A part of the frame of the next message that is still to come, if there is one. -/
def PartOfNext (part : List B) : List M → Prop
  | [] => part = []
  | m :: _ => part <+: F.frame m ∧ part ≠ F.frame m

theorem stream_append (ms ms' : List M) : F.stream (ms ++ ms') = F.stream ms ++ F.stream ms' :=
  List.flatMap_append

theorem stream_cons (m : M) (ms : List M) : F.stream (m :: ms) = F.frame m ++ F.stream ms :=
  List.flatMap_cons

/-- Whole frames followed by a part of the next one. -/
theorem pump_stream (done rest : List M) (part : List B) (fuel : Nat)
    (hv : ∀ m ∈ done ++ rest, F.Valid m) (hp : F.PartOfNext part rest)
    (hfuel : (F.stream done ++ part).length < fuel) :
    pump next fuel (F.stream done ++ part) = .ok ((F.stream done).length, done) := by
  induction done generalizing fuel with
  | nil =>
    obtain ⟨fuel, rfl⟩ : ∃ n, fuel = n + 1 := ⟨fuel - 1, by omega⟩
    have hnil : F.stream [] = [] := rfl
    rw [hnil, List.nil_append]
    unfold pump
    by_cases he : part = []
    · rw [if_pos he]
      rfl
    · cases rest with
      | nil => exact absurd hp he
      | cons m rest =>
        have hn := F.next_part m part (hv m (by simp)) hp.1 hp.2 he
        simp only [if_neg he, hn, if_true]
        rfl
  | cons m done ih =>
    obtain ⟨fuel, rfl⟩ : ∃ n, fuel = n + 1 := ⟨fuel - 1, by omega⟩
    have hlen : 0 < (F.frame m).length := List.length_pos_of_ne_nil (F.frame_ne_nil m)
    have hne : F.frame m ++ (F.stream done ++ part) ≠ [] := by
      simp [F.frame_ne_nil m]
    rw [F.stream_cons, List.append_assoc] at hfuel ⊢
    have hrest := ih fuel (fun m' hm' => hv m' (List.mem_cons_of_mem m hm')) (by
      simp only [List.length_append] at hfuel ⊢
      omega)
    unfold pump
    rw [if_neg hne, F.next_frame m _ (hv m (by simp))]
    simp only [List.drop_left, hrest, List.length_append]
    rw [if_neg (by omega)]
    rfl

/-- A prefix of a stream is a number of whole frames and a part of the next one. -/
theorem prefix_stream (ms : List M) (buffer : List B) (h : buffer <+: F.stream ms) :
    ∃ done rest part, ms = done ++ rest ∧ buffer = F.stream done ++ part ∧
      F.PartOfNext part rest := by
  induction ms generalizing buffer with
  | nil =>
    have hb : buffer = [] := List.prefix_nil.1 h
    exact ⟨[], [], [], rfl, hb, rfl⟩
  | cons m ms ih =>
    rw [F.stream_cons] at h
    by_cases hlen : buffer.length < (F.frame m).length
    · have hpre : buffer <+: F.frame m :=
        List.prefix_of_prefix_length_le h (List.prefix_append _ _) (Nat.le_of_lt hlen)
      have hne : buffer ≠ F.frame m := by
        intro he
        rw [he] at hlen
        omega
      exact ⟨[], m :: ms, buffer, rfl, rfl, hpre, hne⟩
    · have hframe : F.frame m <+: buffer :=
        List.prefix_of_prefix_length_le (List.prefix_append _ _) h (Nat.le_of_not_lt hlen)
      obtain ⟨tail, rfl⟩ := hframe
      obtain ⟨done, rest, part, rfl, rfl, hp⟩ := ih tail (List.prefix_append_right_inj _ |>.1 h)
      refine ⟨m :: done, rest, part, rfl, ?_, hp⟩
      rw [F.stream_cons, List.append_assoc]

/-- The reader has decoded the whole frames received and keeps the part of the next one. -/
def InStep (ms : List M) (received : List B) (r : Reader B M) : Prop :=
  ∃ rest, ms = r.decoded ++ rest ∧ received = F.stream r.decoded ++ r.undrained ∧
    F.PartOfNext r.undrained rest

theorem read_inStep (ms : List M) (hv : ∀ m ∈ ms, F.Valid m) (received piece : List B)
    (r : Reader B M) (h : F.InStep ms received r) (hpre : received ++ piece <+: F.stream ms) :
    ∃ r', r.read next piece = .ok r' ∧ F.InStep ms (received ++ piece) r' := by
  obtain ⟨rest, hms, hrec, -⟩ := h
  have hbuffer : r.undrained ++ piece <+: F.stream rest := by
    rw [hrec, hms, F.stream_append, List.append_assoc] at hpre
    exact List.prefix_append_right_inj _ |>.1 hpre
  obtain ⟨done, rest', part, hrest, hbuf, hp⟩ := F.prefix_stream rest _ hbuffer
  have hv' : ∀ m ∈ done ++ rest', F.Valid m := by
    intro m hm
    apply hv
    rw [hms, hrest]
    exact List.mem_append_right _ hm
  have hpump := F.pump_stream done rest' part ((F.stream done ++ part).length + 1) hv' hp
    (Nat.lt_succ_self _)
  refine ⟨⟨part, r.decoded ++ done⟩, ?_, rest', ?_, ?_, hp⟩
  · simp only [Reader.read, hbuf, hpump, List.drop_left]
  · rw [hms, hrest, List.append_assoc]
  · rw [hrec, List.append_assoc, hbuf, F.stream_append, List.append_assoc]

theorem run_inStep (ms : List M) (hv : ∀ m ∈ ms, F.Valid m) (pieces : List (List B))
    (received : List B) (r : Reader B M) (h : F.InStep ms received r)
    (hpre : received ++ pieces.flatten <+: F.stream ms) :
    ∃ r', r.run next pieces = .ok r' ∧ F.InStep ms (received ++ pieces.flatten) r' := by
  induction pieces generalizing received r with
  | nil =>
    refine ⟨r, rfl, ?_⟩
    rw [List.flatten_nil, List.append_nil]
    exact h
  | cons piece pieces ih =>
    rw [List.flatten_cons, ← List.append_assoc] at hpre ⊢
    obtain ⟨r1, hread, h1⟩ := F.read_inStep ms hv received piece r h
      ((List.prefix_append _ _).trans hpre)
    obtain ⟨r2, hrun, h2⟩ := ih (received ++ piece) r1 h1 hpre
    refine ⟨r2, ?_, h2⟩
    simp only [Reader.run, hread, hrun]

theorem inStep_start (ms : List M) : F.InStep ms [] {} := by
  refine ⟨ms, rfl, rfl, ?_⟩
  cases ms with
  | nil => rfl
  | cons m ms => exact ⟨List.nil_prefix, fun he => F.frame_ne_nil m he.symm⟩

/-- At the end of the stream nothing is left over. -/
theorem InStep.complete {F : Framing next} {ms : List M} {r : Reader B M}
    (h : F.InStep ms (F.stream ms) r) : r.decoded = ms ∧ r.undrained = [] := by
  obtain ⟨rest, hms, hrec, hp⟩ := h
  have hund : F.stream rest = r.undrained := by
    have hs : F.stream ms = F.stream r.decoded ++ F.stream rest := by
      rw [← F.stream_append, ← hms]
    rw [hs] at hrec
    exact List.append_cancel_left hrec
  cases rest with
  | nil =>
    rw [List.append_nil] at hms
    exact ⟨hms.symm, hp⟩
  | cons m rest =>
    rw [F.stream_cons] at hund
    have hle := hp.1.length_le
    rw [← hund, List.length_append] at hle
    exfalso
    apply hp.2
    rw [← hund]
    have hz : F.stream rest = [] := List.eq_nil_of_length_eq_zero (by omega)
    rw [hz, List.append_nil]

/-- However the stream is cut, the reader decodes the messages, each once and in order. -/
theorem run_cut (ms : List M) (hv : ∀ m ∈ ms, F.Valid m) (pieces : List (List B))
    (h : pieces.flatten = F.stream ms) :
    Reader.run next pieces {} = .ok ⟨[], ms⟩ := by
  have hstream : [] ++ pieces.flatten <+: F.stream ms := by simp [h]
  obtain ⟨r, hrun, hin⟩ := F.run_inStep ms hv pieces [] {} (F.inStep_start ms) hstream
  rw [List.nil_append, h] at hin
  obtain ⟨hd, hu⟩ := hin.complete
  rw [hrun]
  cases r
  simp only at hd hu
  rw [hd, hu]

end Framing
end RoqCme.Lib
