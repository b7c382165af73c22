import RoqCme.Gateway.Session

/-! Heartbeats. The timer of the source compares the wrong way round: it sends while the interval
is running and keeps silent once it has lapsed. -/
namespace RoqCme.Gateway.Session
open RoqCme.Lib
variable {Qp Qo D : Type} (env : SessionEnv D) (clock : Clock)

/-- A timer event tries to send a heartbeat. -/
def Heartbeat (s : Session D) : Prop :=
  ∃ uuid nextSeqNo left,
    (onTimer env clock true s).1.tried = s.tried ++ [(.sequence uuid nextSeqNo, left)]

theorem sendSequence_tried (s : Session D) : ∃ uuid nextSeqNo left,
    (sendSequence env clock s).1.tried = s.tried ++ [(.sequence uuid nextSeqNo, left)] := by
  unfold sendSequence send
  split
  · exact ⟨_, _, _, rfl⟩
  · exact ⟨_, _, _, rfl⟩

theorem heartbeat_iff {s : Session D} (hready : s.ready = true) :
    Heartbeat env clock s ↔ clock.originCreateTime < s.nextHeartbeat := by
  unfold Heartbeat onTimer
  constructor
  · rintro ⟨uuid, nextSeqNo, left, h⟩
    by_contra ht
    rw [if_neg (fun hx => ht hx.2.2)] at h
    simp at h
  · intro ht
    rw [if_pos ⟨rfl, hready, ht⟩]
    exact sendSequence_tried env clock s

/-- In every state of a ready session and at every time, the timer does the opposite of what
keeps the session alive. -/
theorem heartbeat_against_interval (s : Session D) (hready : s.ready = true) :
    ¬ (Heartbeat env clock s ↔ s.nextHeartbeat ≤ clock.originCreateTime) := by
  rw [heartbeat_iff env clock hready]
  omega

theorem heartbeat_against_interval_after_login :
    let s := runFrom SessionEnv.sample Config.sample (Session.login Unit Unit 0)
    s.ready = true ∧ ¬ (Heartbeat SessionEnv.sample ⟨1000000000, 1000000000, 0⟩ s ↔
      s.nextHeartbeat ≤ 1000000000) := by
  intro s
  have hready : s.ready = true := by decide +kernel
  exact ⟨hready, heartbeat_against_interval SessionEnv.sample ⟨1000000000, 1000000000, 0⟩ s hready⟩

/-- Once the interval has lapsed no timer brings the heartbeat back. -/
theorem timers_silent_after_lapse (s : Session D) (timers : List (Clock × Bool))
    (h : ∀ t ∈ timers, s.nextHeartbeat ≤ t.1.originCreateTime) :
    Command.run (fun t => onTimer env t.1 t.2) timers s = s := by
  induction timers with
  | nil => rfl
  | cons t timers ih =>
    have hlapsed := h t (by simp)
    have hone : (onTimer env t.1 t.2 s).1 = s := by
      rw [onTimer, if_neg]
      intro hx
      omega
    rw [Command.run, List.foldl_cons, hone]
    exact ih fun u hu => h u (List.mem_cons_of_mem t hu)

/-- Ready since time 0: a timer after one second sends, one after 31 seconds does not. -/
theorem heartbeat_early_and_never_late :
    let s := runFrom SessionEnv.sample Config.sample (Session.login Unit Unit 0)
    s.ready = true ∧ s.nextHeartbeat = 30000000000 ∧
      (onTimer SessionEnv.sample ⟨1000000000, 1000000000, 0⟩ true s).1.tried =
        s.tried ++ [(.sequence 0 3, true)] ∧
      (onTimer SessionEnv.sample ⟨31000000000, 31000000000, 0⟩ true s).1.tried = s.tried := by
  decide +kernel

end RoqCme.Gateway.Session
