import DexUnseal.Holder.Session
import Mathlib.Data.List.Basic

/-! However callers of a holder interleave, the job runs at most once and all of them get its outcome. -/

namespace DexUnseal.Holder

variable {World α : Type}

inductive Stage.Next : Stage α → Stage α → Prop
  | stay (stage : Stage α) : Next stage stage
  | start : Next .pending .running
  | finish (outcome : Outcome α) : Next .running (.done outcome)

def Caller.Idle : Caller α → Prop
  | .arriving | .waiting => True
  | _ => False

def Caller.isWorking : Caller α → Bool
  | .working => true
  | _ => false

lemma Caller.Idle.not_isWorking {caller : Caller α} (h : caller.Idle) : caller.isWorking = false := by
  cases caller <;> first | rfl | exact h.elim

inductive Replayed : Ending α → Outcome α → Prop
  | value (x : α) : Replayed (.value x) (.value x)
  | failure (f : Failure) : Replayed (.failure f) (.failure f)
  | text (message : String) : Replayed (.crash (.text message)) (.crash message)
  | literal (message : String) : Replayed (.crash (.literal message)) (.crash message)
  | other : Replayed (.crash .other) (.failure (.unexpected "Unexpected error"))

lemma replayed_ofEnding (ending : Ending α) : Replayed ending (.ofEnding ending) := by
  cases ending with
  | value x => exact .value x
  | failure f => exact .failure f
  | crash payload =>
    cases payload with
    | text message => exact .text message
    | literal message => exact .literal message
    | other => exact .other

namespace Session

def runsJob (s : Session World α) : Event → Bool
  | .step number => s.callers[number]?.any Caller.isWorking
  | .arrival => false

def jobRuns (s : Session World α) : List Event → Nat
  | [] => 0
  | event :: events => (s.runsJob event).toNat + jobRuns (s.apply event) events

def OneBusy (callers : List (Caller α)) (busy : Caller α) : Prop :=
  ∃ number, callers[number]? = some busy ∧
    ∀ (i : Nat) (caller : Caller α), callers[i]? = some caller → i ≠ number → caller.Idle

/-- How far a session has come, and how often it has run the job. -/
inductive Phase (job : Job World α) (world : World) : Session World α → Nat → Prop
  | pending {callers : List (Caller α)} (h : ∀ caller ∈ callers, caller.Idle) :
    Phase job world ⟨job, .pending, world, callers⟩ 0
  | working {callers : List (Caller α)} (h : OneBusy callers .working) :
    Phase job world ⟨job, .running, world, callers⟩ 0
  | publishing {callers : List (Caller α)} (h : OneBusy callers (.publishing (.ofEnding (job world).1))) :
    Phase job world ⟨job, .running, (job world).2, callers⟩ 1
  | done {callers : List (Caller α)}
    (h : ∀ caller ∈ callers, caller.Idle ∨ caller = .returned (.ofEnding (job world).1)) :
    Phase job world ⟨job, .done (.ofEnding (job world).1), (job world).2, callers⟩ 1

variable {job : Job World α} {world : World} {s : Session World α} {number : Nat} {callers : List (Caller α)}
  {busy caller : Caller α}

lemma step_none (h : s.callers[number]? = none) : s.step number = s := by
  simp only [step, h]

lemma step_idle (h : s.callers[number]? = some caller) (hi : caller.Idle) :
    s.step number =
      ⟨s.job, (Caller.look.run s.stage).2, s.world, s.callers.set number (Caller.look.run s.stage).1⟩ := by
  cases caller with
  | arriving | waiting =>
    simp only [step, h]
    rfl
  | working | publishing | returned => exact hi.elim

lemma step_working (h : s.callers[number]? = some .working) :
    s.step number = ⟨s.job, s.stage, (s.job s.world).2,
      s.callers.set number (.publishing (.ofEnding (s.job s.world).1))⟩ := by
  simp only [step, h]
  rfl

lemma step_publishing {outcome : Outcome α} (h : s.callers[number]? = some (.publishing outcome)) :
    s.step number = ⟨s.job, .done outcome, s.world, s.callers.set number (.returned outcome)⟩ := by
  simp only [step, h]

lemma step_returned {outcome : Outcome α} (h : s.callers[number]? = some (.returned outcome)) :
    s.step number = s := by
  simp only [step, h]

lemma OneBusy.arrival (h : OneBusy callers busy) : OneBusy (callers ++ [.arriving]) busy := by
  obtain ⟨k, hk, hothers⟩ := h
  have hlt := (List.getElem?_eq_some_iff.mp hk).1
  refine ⟨k, by rw [List.getElem?_append_left hlt, hk], fun i caller hc hi => ?_⟩
  rcases Nat.lt_or_ge i callers.length with hil | hil
  · exact hothers i caller (by rwa [List.getElem?_append_left hil] at hc) hi
  · rw [List.getElem?_append_right hil] at hc
    rw [List.mem_singleton.mp (List.mem_of_getElem? hc)]
    trivial

lemma OneBusy.of_not_idle (h : OneBusy callers busy) (hc : callers[number]? = some caller) (hi : ¬ caller.Idle) :
    caller = busy ∧ ∀ (i : Nat) (other : Caller α), callers[i]? = some other → i ≠ number → other.Idle := by
  obtain ⟨k, hk, hothers⟩ := h
  obtain rfl : number = k := by_contra fun hne => hi (hothers number caller hc hne)
  exact ⟨Option.some.inj (hc.symm.trans hk), hothers⟩

lemma OneBusy.set_idle (h : OneBusy callers busy) (hb : ¬ busy.Idle) (hc : callers[number]? = some caller)
    (hi : caller.Idle) {next : Caller α} (hn : next.Idle) : OneBusy (callers.set number next) busy := by
  obtain ⟨k, hk, hothers⟩ := h
  have hne : number ≠ k := by
    rintro rfl
    exact hb (Option.some.inj (hc.symm.trans hk) ▸ hi)
  refine ⟨k, by rwa [List.getElem?_set_ne hne], fun i other ho hik => ?_⟩
  rcases eq_or_ne number i with rfl | hni
  · rw [List.getElem?_set_self (List.getElem?_eq_some_iff.mp hc).1] at ho
    exact Option.some.inj ho ▸ hn
  · rw [List.getElem?_set_ne hni] at ho
    exact hothers i other ho hik

lemma OneBusy.of_set (hc : callers[number]? = some caller)
    (ho : ∀ (i : Nat) (other : Caller α), callers[i]? = some other → i ≠ number → other.Idle) :
    OneBusy (callers.set number busy) busy := by
  refine ⟨number, List.getElem?_set_self (List.getElem?_eq_some_iff.mp hc).1, fun i other hi hne => ?_⟩
  rw [List.getElem?_set_ne hne.symm] at hi
  exact ho i other hi hne

theorem phase_step {runs : Nat} (h : Phase job world s runs) (hc : s.callers[number]? = some caller) :
    Phase job world (s.step number) (runs + caller.isWorking.toNat) ∧ s.stage.Next (s.step number).stage := by
  cases h with
  | pending h =>
    have hi := h caller (List.mem_of_getElem? hc)
    rw [step_idle hc hi, hi.not_isWorking]
    exact ⟨.working (.of_set hc fun i other ho _ => h other (List.mem_of_getElem? ho)), .start⟩
  | working h =>
    by_cases hi : caller.Idle
    · rw [step_idle hc hi, hi.not_isWorking]
      exact ⟨.working (h.set_idle id hc hi trivial), .stay _⟩
    · obtain ⟨rfl, ho⟩ := h.of_not_idle hc hi
      rw [step_working hc]
      exact ⟨.publishing (.of_set hc ho), .stay _⟩
  | publishing h =>
    by_cases hi : caller.Idle
    · rw [step_idle hc hi, hi.not_isWorking]
      exact ⟨.publishing (h.set_idle id hc hi trivial), .stay _⟩
    · obtain ⟨rfl, ho⟩ := h.of_not_idle hc hi
      rw [step_publishing hc]
      refine ⟨.done fun other hm => ?_, .finish _⟩
      obtain ⟨i, hi⟩ := List.mem_iff_getElem?.mp hm
      rcases eq_or_ne number i with rfl | hne
      · rw [List.getElem?_set_self (List.getElem?_eq_some_iff.mp hc).1] at hi
        exact .inr (Option.some.inj hi).symm
      · rw [List.getElem?_set_ne hne] at hi
        exact .inl (ho i other hi hne.symm)
  | done h =>
    rcases h caller (List.mem_of_getElem? hc) with hi | rfl
    · rw [step_idle hc hi, hi.not_isWorking]
      refine ⟨.done fun other hm => ?_, .stay _⟩
      rcases List.mem_or_eq_of_mem_set hm with hm | rfl
      · exact h other hm
      · exact .inr rfl
    · rw [step_returned hc]
      exact ⟨.done h, .stay _⟩

theorem phase_arrival {runs : Nat} (h : Phase job world s runs) :
    Phase job world s.arrive runs ∧ s.stage.Next s.arrive.stage := by
  have hidle : ∀ caller ∈ [(.arriving : Caller α)], caller.Idle := by
    intro caller hm
    rw [List.mem_singleton.mp hm]
    trivial
  cases h with
  | pending h => exact ⟨.pending (List.forall_mem_append.mpr ⟨h, hidle⟩), .stay _⟩
  | working h => exact ⟨.working h.arrival, .stay _⟩
  | publishing h => exact ⟨.publishing h.arrival, .stay _⟩
  | done h => exact ⟨.done (List.forall_mem_append.mpr ⟨h, fun caller hm => .inl (hidle caller hm)⟩), .stay _⟩

theorem phase_apply {runs : Nat} (h : Phase job world s runs) (event : Event) :
    Phase job world (s.apply event) (runs + (s.runsJob event).toNat) ∧ s.stage.Next (s.apply event).stage := by
  cases event with
  | arrival => exact phase_arrival h
  | step number =>
    cases hc : s.callers[number]? with
    | none =>
      rw [apply, step_none hc, runsJob, hc]
      exact ⟨h, .stay _⟩
    | some caller =>
      rw [apply, runsJob, hc]
      exact phase_step h hc

theorem phase_run {runs : Nat} (h : Phase job world s runs) (events : List Event) :
    Phase job world (s.run events) (runs + s.jobRuns events) := by
  induction events generalizing s runs with
  | nil => exact h
  | cons event events ih =>
    have ht := ih (phase_apply h event).1
    rwa [Nat.add_assoc] at ht

theorem phase_ofJob (label : String) (job : Job World α) (world : World) :
    Phase job world (ofHolder (.ofJob label job) world) 0 := .pending (by simp)

lemma Phase.runs_le {runs : Nat} (h : Phase job world s runs) : runs ≤ 1 := by
  cases h <;> decide

lemma Phase.world_eq {runs : Nat} (h : Phase job world s runs) :
    s.world = if runs = 0 then world else (job world).2 := by
  cases h <;> rfl

lemma Phase.of_returned {runs : Nat} {got : Outcome α} (h : Phase job world s runs)
    (hg : .returned got ∈ s.callers) :
    s.stage = .done (.ofEnding (job world).1) ∧ runs = 1 ∧ got = .ofEnding (job world).1 := by
  obtain ⟨number, hn⟩ := List.mem_iff_getElem?.mp hg
  cases h with
  | pending h => exact (h _ hg).elim
  | working h => exact nomatch (h.of_not_idle hn id).1
  | publishing h => exact nomatch (h.of_not_idle hn id).1
  | done h =>
    rcases h _ hg with hi | he
    · exact hi.elim
    · exact ⟨rfl, rfl, Caller.returned.inj he⟩

lemma stage_run_of_done {runs : Nat} {outcome : Outcome α} (h : Phase job world s runs)
    (hd : s.stage = .done outcome) (events : List Event) : (s.run events).stage = .done outcome := by
  induction events generalizing s runs with
  | nil => exact hd
  | cons event events ih =>
    obtain ⟨hp, hn⟩ := phase_apply h event
    rw [hd] at hn
    apply ih hp
    generalize (s.apply event).stage = stage at hn
    cases hn
    rfl

lemma run_append (s : Session World α) (before after : List Event) :
    s.run (before ++ after) = (s.run before).run after :=
  List.foldl_append

lemma run_arrivals (s : Session World α) (n : Nat) : s.run (List.replicate n .arrival) =
    { s with callers := s.callers ++ List.replicate n .arriving } := by
  induction n generalizing s with
  | zero =>
    rw [List.replicate_zero, List.replicate_zero, List.append_nil]
    rfl
  | succ n ih =>
    change s.arrive.run (List.replicate n .arrival) = _
    rw [ih, List.replicate_succ]
    simp [arrive]

lemma run_turn {stage : Stage α} {before after : Caller α}
    (hstep : ∀ front rest : List (Caller α),
      (⟨job, stage, world, front ++ before :: rest⟩ : Session World α).step front.length =
        ⟨job, stage, world, front ++ after :: rest⟩) (front : List (Caller α)) (n : Nat) :
    (⟨job, stage, world, front ++ List.replicate n before⟩ : Session World α).run
        ((List.range' front.length n).map .step) = ⟨job, stage, world, front ++ List.replicate n after⟩ := by
  induction n generalizing front with
  | zero => rfl
  | succ n ih =>
    have hnext := ih (front ++ [after])
    rw [List.length_append, List.length_singleton, List.append_assoc, List.append_assoc] at hnext
    rw [List.replicate_succ, List.range'_succ, List.map_cons, List.replicate_succ]
    change ((⟨job, stage, world, front ++ before :: List.replicate n before⟩ : Session World α).step front.length).run
      _ = _
    rw [hstep]
    exact hnext

lemma step_at {stage : Stage α} {front rest : List (Caller α)} (hi : caller.Idle) :
    (⟨job, stage, world, front ++ caller :: rest⟩ : Session World α).step front.length =
      ⟨job, (Caller.look.run stage).2, world, front ++ (Caller.look.run stage).1 :: rest⟩ := by
  rw [step_idle (by simp) hi]
  simp

/-- The first caller goes ahead, and what it does is all that changes for the others. -/
lemma run_round {stage stage' : Stage α} {world world' : World} {first first' before after : Caller α}
    (hfirst : ∀ rest : List (Caller α),
      (⟨job, stage, world, first :: rest⟩ : Session World α).step 0 = ⟨job, stage', world', first' :: rest⟩)
    (hrest : ∀ front rest : List (Caller α),
      (⟨job, stage', world', front ++ before :: rest⟩ : Session World α).step front.length =
        ⟨job, stage', world', front ++ after :: rest⟩) (n : Nat) :
    (⟨job, stage, world, first :: List.replicate n before⟩ : Session World α).run
      ((List.range (n + 1)).map .step) = ⟨job, stage', world', first' :: List.replicate n after⟩ := by
  rw [List.range_eq_range', List.range'_succ, List.map_cons]
  change ((⟨job, stage, world, first :: List.replicate n before⟩ : Session World α).step 0).run _ = _
  rw [hfirst]
  exact run_turn hrest [first'] n

theorem run_together (label : String) (job : Job World α) (world : World) (n : Nat) :
    (ofHolder (.ofJob label job) world).run (together (n + 1)) = ⟨job, .done (.ofEnding (job world).1), (job world).2,
      List.replicate (n + 1) (.returned (.ofEnding (job world).1))⟩ := by
  set outcome := Outcome.ofEnding (job world).1
  have harrived : (ofHolder (.ofJob label job) world).run (List.replicate (n + 1) .arrival) =
      ⟨job, .pending, world, .arriving :: List.replicate n .arriving⟩ := run_arrivals _ _
  have hturns : (List.replicate stepsPerCaller ((List.range (n + 1)).map Event.step)).flatten =
      (List.range (n + 1)).map Event.step ++ ((List.range (n + 1)).map Event.step ++
        ((List.range (n + 1)).map Event.step ++ (List.range (n + 1)).map Event.step)) := by
    simp only [stepsPerCaller, List.replicate_succ, List.replicate_zero, List.flatten_cons, List.flatten_nil,
      List.append_nil]
  have harriving : (Caller.arriving : Caller α).Idle := trivial
  have hwaiting : (Caller.waiting : Caller α).Idle := trivial
  -- the first caller takes the job, runs it and publishes its outcome, which the others find in the same turn
  have htaken : (⟨job, .pending, world, .arriving :: List.replicate n .arriving⟩ : Session World α).run
      ((List.range (n + 1)).map .step) = ⟨job, .running, world, .working :: List.replicate n .waiting⟩ :=
    run_round (fun rest => rfl) (fun front rest => step_at harriving) n
  have hworked : (⟨job, .running, world, .working :: List.replicate n .waiting⟩ : Session World α).run
      ((List.range (n + 1)).map .step) =
        ⟨job, .running, (job world).2, .publishing outcome :: List.replicate n .waiting⟩ :=
    run_round (fun rest => rfl) (fun front rest => step_at hwaiting) n
  have hpublished : (⟨job, .running, (job world).2, .publishing outcome :: List.replicate n .waiting⟩ :
      Session World α).run ((List.range (n + 1)).map .step) =
        ⟨job, .done outcome, (job world).2, .returned outcome :: List.replicate n (.returned outcome)⟩ :=
    run_round (fun rest => rfl) (fun front rest => step_at hwaiting) n
  have hkept : (⟨job, .done outcome, (job world).2, .returned outcome :: List.replicate n (.returned outcome)⟩ :
      Session World α).run ((List.range (n + 1)).map .step) =
        ⟨job, .done outcome, (job world).2, .returned outcome :: List.replicate n (.returned outcome)⟩ := by
    have hat (front rest : List (Caller α)) :
        (front ++ .returned outcome :: rest)[front.length]? = some (.returned outcome) := by simp
    exact run_round (fun rest => rfl) (fun front rest => step_returned (hat front rest)) n
  rw [together, hturns, run_append, harrived, run_append, htaken, run_append, hworked, run_append, hpublished, hkept,
    List.replicate_succ]

/-- However callers interleave, the job is run at most once, and with it its effect on the world; the stage only
moves on, and stays once there is an outcome; who has returned did so after the job, with its outcome. -/
theorem materialize_once (label : String) (job : Job World α) (world : World) (events : List Event) :
    let start := ofHolder (.ofJob label job) world
    let s := start.run events
    start.jobRuns events ≤ 1 ∧
      s.world = (if start.jobRuns events = 0 then world else (job world).2) ∧
      (∀ event, s.stage.Next (s.apply event).stage) ∧
      (∀ outcome, s.stage = .done outcome → ∀ later, (s.run later).stage = .done outcome) ∧
      ∃ outcome, Replayed (job world).1 outcome ∧
        ∀ got, .returned got ∈ s.callers → s.stage = .done outcome ∧ start.jobRuns events = 1 ∧ got = outcome := by
  intro start s
  have h := phase_run (phase_ofJob label job world) events
  rw [Nat.zero_add] at h
  exact ⟨h.runs_le, h.world_eq, fun event => (phase_apply h event).2, fun _ hd later => stage_run_of_done h hd later,
    _, replayed_ofEnding _, fun _ hg => h.of_returned hg⟩

theorem materialize_once_together : ∃ s : Session Nat Nat,
    (ofHolder (.ofJob "two" fun runs => (.crash (.literal "out of order"), runs + 1)) 0).run (together 2) = s ∧
      s.callers = [.returned (.crash "out of order"), .returned (.crash "out of order")] ∧ s.world = 1 ∧
      (ofHolder (.ofJob "two" fun runs => ((.crash (.literal "out of order") : Ending Nat), runs + 1)) 0).jobRuns
        (together 2) = 1 ∧ ∀ later, (s.run later).stage = .done (.crash "out of order") := by
  let job : Job Nat Nat := fun runs => (.crash (.literal "out of order"), runs + 1)
  have hrun := run_together "two" job 0 1
  obtain ⟨-, -, -, hstay, outcome, -, hreturned⟩ := materialize_once "two" job 0 (together 2)
  rw [hrun] at hstay hreturned
  refine ⟨_, hrun, rfl, rfl, ?_, hstay _ rfl⟩
  exact (hreturned _ List.mem_cons_self).2.1

end Session

end DexUnseal.Holder
