import RoqCme.Lib.Runs
import RoqCme.MarketData.Reports

/-! The calls of `SecurityIterator`, compared with the maximal runs of items of one security. -/
namespace RoqCme.MarketData
open RoqCme.Lib
variable {Qp Qo : Type}

inductive IteratorCall (Qp Qo α : Type) where
  | callback (securityId : Int) (found : Found Qp Qo) (item : α)
  | dispatch (securityId : Int) (found : Found Qp Qo)

section SecurityIterator
variable {α τ : Type} (get : Lookup Qp Qo) (securityID : α → Int)

/-- The calls in the order in which they are made. -/
def SecurityIterator.log (items : List α) : List (IteratorCall Qp Qo α) :=
  SecurityIterator.run get securityID (fun i found calls => calls ++ [.dispatch i found])
    (fun i found item calls => calls ++ [.callback i found item]) items []

def callbackOf (item : α) : List (IteratorCall Qp Qo α) :=
  ((get.find (securityID item)).map (.callback (securityID item) · item)).toList

/-- A dispatch under the name of `i` for the items of security `securityId`. -/
def dispatchOf (i securityId : Int) : List (IteratorCall Qp Qo α) :=
  ((get.find securityId).map (.dispatch i)).toList

/-- A maximal run: a callback for each item of a known security, and then one dispatch. -/
def callsOf (items : List α) : List (IteratorCall Qp Qo α) :=
  items.flatMap (callbackOf get securityID) ++
    items.head?.toList.flatMap fun item => dispatchOf get (securityID item) (securityID item)

/-- The calls that are right: run by run, each under the id of its security. -/
def groupedCalls (items : List α) : List (IteratorCall Qp Qo α) :=
  (runs securityID items).flatMap (callsOf get securityID)

/-- The calls still to come while security `securityId` is the current one, when `name` is the
id under which it is dispatched upon an item of another security. -/
def remaining (name : Int → Int → Int) (securityId : Int) : List α → List (IteratorCall Qp Qo α)
  | [] => dispatchOf get securityId securityId
  | item :: items =>
    (if securityID item = securityId then []
      else dispatchOf get (name securityId (securityID item)) securityId) ++
      callbackOf get securityID item ++ remaining name (securityID item) items

theorem callsOf_block {block : List α} {securityId : Int} (hn : block ≠ [])
    (hb : ∀ b ∈ block, securityID b = securityId) :
    callsOf get securityID block = block.flatMap (callbackOf get securityID) ++
      dispatchOf get securityId securityId := by
  cases block with
  | nil => exact absurd rfl hn
  | cons b block =>
    rw [callsOf, List.head?_cons, Option.toList_some, List.flatMap_singleton,
      hb b List.mem_cons_self]

/-- The calls that are right after the items `block` of one security. -/
theorem groupedCalls_block (items : List α) {block : List α} {securityId : Int} (hn : block ≠ [])
    (hb : ∀ b ∈ block, securityID b = securityId) :
    groupedCalls get securityID (block ++ items) =
      block.flatMap (callbackOf get securityID) ++
        remaining get securityID (fun i _ => i) securityId items := by
  have hone : OneKey securityID block := fun a ha b hb' => (hb a ha).trans (hb b hb').symm
  induction items generalizing block securityId with
  | nil =>
    rw [groupedCalls, List.append_nil, hone.runs securityID hn, List.flatMap_singleton,
      callsOf_block get securityID hn hb]
    rfl
  | cons item items ih =>
    by_cases hi : securityID item = securityId
    · have hb' : ∀ b ∈ block ++ [item], securityID b = securityId := by
        intro b hmem
        cases List.mem_append.1 hmem with
        | inl hmem => exact hb b hmem
        | inr hmem => rw [List.mem_singleton.1 hmem, hi]
      have hrest := ih (by simp) hb' fun a ha b hb => (hb' a ha).trans (hb' b hb).symm
      rw [List.append_assoc, List.singleton_append] at hrest
      rw [hrest, remaining, if_pos hi, hi, List.flatMap_append, List.flatMap_singleton]
      simp only [List.nil_append, List.append_assoc]
    · have hcut : ∀ b ∈ block, securityID b ≠ securityID item := by
        intro b hmem he
        exact hi (he.symm.trans (hb b hmem))
      have hrest := ih (List.cons_ne_nil item [])
        (fun b hmem => by rw [List.mem_singleton.1 hmem]) (by simp [OneKey])
      rw [List.singleton_append, List.flatMap_singleton] at hrest
      rw [groupedCalls, hone.runs_append securityID hn hcut, List.flatMap_cons,
        callsOf_block get securityID hn hb, remaining, if_neg hi]
      rw [groupedCalls] at hrest
      rw [hrest, List.append_assoc, List.append_assoc]

/-- The step of the loop that keeps the log. -/
def logStep (it : SecurityIterator Qp Qo (List (IteratorCall Qp Qo α))) (item : α) :
    SecurityIterator Qp Qo (List (IteratorCall Qp Qo α)) :=
  SecurityIterator.step get securityID (fun i found calls => calls ++ [.dispatch i found])
    (fun i found item calls => calls ++ [.callback i found item]) it item

theorem logStep_eq (it : SecurityIterator Qp Qo (List (IteratorCall Qp Qo α))) (item : α)
    (h : it.security = get.find it.securityId) :
    logStep get securityID it item =
      { securityId := securityID item, security := get.find (securityID item)
        state := it.state ++ (if securityID item = it.securityId then []
          else dispatchOf get (securityID item) it.securityId) ++
            callbackOf get securityID item } := by
  have henter : SecurityIterator.enter get (fun i found calls => calls ++ [.dispatch i found]) it
      (securityID item) =
        { securityId := securityID item, security := get.find (securityID item)
          state := it.state ++ (if securityID item = it.securityId then []
            else dispatchOf get (securityID item) it.securityId) } := by
    by_cases hi : securityID item = it.securityId
    · rw [SecurityIterator.enter, if_neg (not_not.2 hi), if_pos hi, hi, ← h, List.append_nil]
    · rw [SecurityIterator.enter, if_pos hi, if_neg hi, h, dispatchOf]
      cases get.find it.securityId with
      | none => rw [Option.map_none, Option.toList_none, List.append_nil]
      | some found => rfl
  rw [logStep, SecurityIterator.step, henter, SecurityIterator.visit, callbackOf]
  cases get.find (securityID item) with
  | none => rw [Option.map_none, Option.toList_none, List.append_nil]
  | some found => rfl

/-- The calls that the loop makes from a state in which some security is the current one. -/
theorem log_foldl (items : List α) (it : SecurityIterator Qp Qo (List (IteratorCall Qp Qo α)))
    (h : it.security = get.find it.securityId) :
    let last := items.foldl (logStep get securityID) it
    last.state ++ dispatchOf get last.securityId last.securityId =
        it.state ++ remaining get securityID (fun _ j => j) it.securityId items ∧
      last.security = get.find last.securityId := by
  induction items generalizing it with
  | nil => exact ⟨rfl, h⟩
  | cons item items ih =>
    obtain ⟨hcalls, hfind⟩ := ih (logStep get securityID it item) (by rw [logStep_eq _ _ _ _ h])
    refine ⟨hcalls.trans ?_, hfind⟩
    rw [logStep_eq get securityID it item h, remaining]
    simp only [List.append_assoc]

/-- The calls that are made agree with those that are right exactly if no security that is known
gives way to another one. -/
theorem remaining_eq_iff (items : List α) (securityId : Int) :
    remaining get securityID (fun _ j => j) securityId items =
        remaining get securityID (fun i _ => i) securityId items ↔
      (securityId :: items.map securityID).IsChain fun i j => (get i).isSome → i = j := by
  induction items generalizing securityId with
  | nil => simp [remaining]
  | cons item items ih =>
    rw [remaining, remaining, List.map_cons, List.isChain_cons_cons, ← ih, List.append_assoc,
      List.append_assoc]
    by_cases hi : securityID item = securityId
    · simp only [hi, if_true, List.append_cancel_left_eq, implies_true, true_and]
    · simp only [if_neg hi, dispatchOf]
      cases hf : get.find securityId with
      | none =>
        simp [find_none hf]
      | some found =>
        simp [(find_self hf).2, hi, Ne.symm hi]

/-- The first item finds no current security. -/
theorem logStep_first (item : α) (h : securityID item ≠ 0) :
    logStep get securityID { state := [] } item =
      { securityId := securityID item, security := get.find (securityID item)
        state := callbackOf get securityID item } := by
  have henter : SecurityIterator.enter get (fun i found calls => calls ++ [.dispatch i found])
      { state := ([] : List (IteratorCall Qp Qo α)) } (securityID item) =
        { securityId := securityID item, security := get.find (securityID item), state := [] } := by
    rw [SecurityIterator.enter, if_pos h]
  rw [logStep, SecurityIterator.step, henter, SecurityIterator.visit, callbackOf]
  cases get.find (securityID item) with
  | none => rfl
  | some found => rfl

theorem log_cons (item : α) (items : List α) (h : securityID item ≠ 0) :
    SecurityIterator.log get securityID (item :: items) = callbackOf get securityID item ++
      remaining get securityID (fun _ j => j) (securityID item) items := by
  obtain ⟨hcalls, hfind⟩ := log_foldl get securityID items
    (logStep get securityID { state := [] } item) (by rw [logStep_first get securityID item h])
  rw [logStep_first get securityID item h] at hcalls hfind
  rw [← hcalls, ← logStep_first get securityID item h, ← List.foldl_cons]
  rw [← logStep_first get securityID item h, ← List.foldl_cons] at hfind
  -- the flush after the loop is a dispatch of the current security
  have hstep : SecurityIterator.step get securityID
      (fun i found (calls : List (IteratorCall Qp Qo α)) => calls ++ [.dispatch i found])
      (fun i found item calls => calls ++ [.callback i found item]) = logStep get securityID := rfl
  rw [dispatchOf, ← hfind, SecurityIterator.log, SecurityIterator.run, hstep]
  cases ((item :: items).foldl (logStep get securityID) { state := [] }).security with
  | none => rw [Option.map_none, Option.toList_none, List.append_nil]
  | some found => rfl

variable (dispatch : Int → Found Qp Qo → τ → τ) (callback : Int → Found Qp Qo → α → τ → τ)

def IteratorCall.perform (t : τ) : IteratorCall Qp Qo α → τ
  | .callback i found item => callback i found item t
  | .dispatch i found => dispatch i found t

/-- The two iterators are at the same place, and the calls of the log lead to the same state. -/
structure FollowsLog (s : τ) (it : SecurityIterator Qp Qo τ)
    (log : SecurityIterator Qp Qo (List (IteratorCall Qp Qo α))) : Prop where
  securityId : it.securityId = log.securityId
  security : it.security = log.security
  state : it.state = log.state.foldl (IteratorCall.perform dispatch callback) s

theorem FollowsLog.step {s : τ} {it : SecurityIterator Qp Qo τ}
    {log : SecurityIterator Qp Qo (List (IteratorCall Qp Qo α))}
    (h : FollowsLog dispatch callback s it log) (item : α) :
    FollowsLog dispatch callback s
      (SecurityIterator.step get securityID dispatch callback it item)
      (logStep get securityID log item) := by
  have henter : FollowsLog dispatch callback s
      (SecurityIterator.enter get dispatch it (securityID item))
      (SecurityIterator.enter get (fun i found calls => calls ++ [.dispatch i found]) log
        (securityID item)) := by
    unfold SecurityIterator.enter
    rw [h.securityId, h.security]
    split
    · refine ⟨rfl, rfl, ?_⟩
      cases log.security with
      | none => exact h.state
      | some found => simp only [List.foldl_append, List.foldl_cons, List.foldl_nil, h.state]; rfl
    · exact h
  unfold SecurityIterator.step logStep SecurityIterator.step SecurityIterator.visit
  rw [henter.security]
  split
  · refine ⟨henter.securityId, rfl, ?_⟩
    simp only [List.foldl_append, List.foldl_cons, List.foldl_nil, henter.state, henter.securityId]
    rfl
  · exact henter

end SecurityIterator

/-- For items of securities other than zero, the iterator calls back for each item of a known
security and dispatches each maximal run of them under its own id, exactly if no item of a known
security is followed by an item of another security. -/
theorem security_iterator_groups_iff {α : Type} (get : Lookup Qp Qo) (securityID : α → Int)
    (items : List α) (h : ∀ item ∈ items, securityID item ≠ 0) :
    SecurityIterator.log get securityID items = groupedCalls get securityID items ↔
      (items.map securityID).IsChain fun i j => (get i).isSome → i = j := by
  cases items with
  | nil => exact iff_of_true rfl .nil
  | cons item items =>
    have hgroup := groupedCalls_block get securityID items (List.cons_ne_nil item [])
      fun b hb => by rw [List.mem_singleton.1 hb]
    rw [List.singleton_append, List.flatMap_singleton] at hgroup
    rw [log_cons get securityID item items (h item List.mem_cons_self), hgroup,
      List.append_cancel_left_eq, remaining_eq_iff, List.map_cons]

/-- Two futures; no other security is known. -/
def twoFutures : Lookup (Option Nat) (Option Nat) := fun i =>
  if i = 7 then some (newSecurity none none "CME" "ESZ5" (some 1) false)
  else if i = 8 then some (newSecurity none none "CME" "NQZ5" (some 1) false)
  else none

/-- An unknown security first, and then one that is known to the end. -/
theorem security_iterator_groups_one :
    SecurityIterator.log twoFutures id [9, 7, 7] = groupedCalls twoFutures id [9, 7, 7] :=
  (security_iterator_groups_iff twoFutures id [9, 7, 7] (by decide)).2 (by decide)

/-- The first future is dispatched under the id of the second one. -/
theorem security_iterator_next_id :
    ∃ s t, twoFutures 7 = some s ∧ twoFutures 8 = some t ∧
      SecurityIterator.log twoFutures id [7, 8] =
        [.callback 7 ⟨7, s⟩ 7, .dispatch 8 ⟨7, s⟩, .callback 8 ⟨8, t⟩ 8, .dispatch 8 ⟨8, t⟩] ∧
      groupedCalls twoFutures id [7, 8] =
        [.callback 7 ⟨7, s⟩ 7, .dispatch 7 ⟨7, s⟩, .callback 8 ⟨8, t⟩ 8, .dispatch 8 ⟨8, t⟩] ∧
      SecurityIterator.log twoFutures id [7, 8] ≠ groupedCalls twoFutures id [7, 8] := by
  refine ⟨_, _, rfl, rfl, rfl, rfl, ?_⟩
  intro h
  have hdispatch := congrArg (fun calls => calls[1]?) h
  cases hdispatch

end RoqCme.MarketData
