import Covenant.Reactor
import Covenant.Runs

/-! The tick of `covenantSigSubmissionLoop`. Every run of a tick is one of those of
`TickRun` (`steps_tick`). From this follow what a tick submits (`TickRun.signed`), and
the discipline that every tick of every run of the loop keeps: signatures are made only
under parameters fetched in the same tick (`tick_discipline`). -/

namespace Covenant.Ticks
open Outcome Interaction Batching Bitcoin Covenant.Types Emulator Signing Loop Reference Gate Runs

variable {lib : Lib} {ce : CovenantEmulator} {t : ClientTrace} {q : Client CovenantEmulator}

/-! ## The tick -/

/-- The answered query for the pending delegations. -/
def queried (ce : CovenantEmulator) (dels : Slice (Option Delegation)) : Event clientController :=
  ⟨.queryPendingDelegations ce.config.delegationLimit, .ok dels⟩

/-- How far a tick can have come, with its trace and what is left of it. -/
inductive TickRun (lib : Lib) (ce : CovenantEmulator) : ClientTrace → Client CovenantEmulator → Prop
  | fetching {errs : List GoError} {c : ClientCall} {k : c.Answer → Client CovenantEmulator} :
      errs.length < rtyAttNum → TickRun lib ce (failures errs) (.call c k)
  | unfetched {errs : List GoError} :
      errs.length = rtyAttNum → TickRun lib ce (failures errs) (.ret ce)
  | querying {errs : List GoError} (p : StakingParams) {c : ClientCall}
      {k : c.Answer → Client CovenantEmulator} :
      errs.length < rtyAttNum → TickRun lib ce (failures errs ++ [fetched p]) (.call c k)
  | unqueried {errs : List GoError} (p : StakingParams) (err : GoError) :
      errs.length < rtyAttNum →
      TickRun lib ce (failures errs ++
        [fetched p, ⟨.queryPendingDelegations ce.config.delegationLimit, .error err⟩])
        (.ret (withParams ce p))
  | processing {errs : List GoError} (p : StakingParams) (dels : Slice (Option Delegation))
      {u : ClientTrace} {q : Client Unit} :
      errs.length < rtyAttNum → Prog.Steps (processDelegations lib (withParams ce p) dels.elems) u q →
      TickRun lib ce (failures errs ++ fetched p :: queried ce dels :: u)
        (q.bind fun _ => .ret (withParams ce p))

/-- **Runs of a tick.** -/
theorem steps_tick (h : Prog.Steps (tick lib ce) t q) : TickRun lib ce t q := by
  rcases Prog.steps_bind h with ⟨p', hp, hne, rfl⟩ | ⟨r, v, w, rfl, hv, hw⟩
  · obtain ⟨errs, ⟨rfl, hlen, c, k, rfl⟩ | ⟨_, _, err, rfl⟩ | ⟨p, _, _, rfl⟩⟩ := steps_updateParams hp
    · exact .fetching hlen
    · exact absurd rfl (hne _)
    · exact absurd rfl (hne _)
  · obtain ⟨errs, ⟨_, _, c, k, hr⟩ | ⟨rfl, hlen, err, hr⟩ | ⟨p, rfl, hlen, hr⟩⟩ := steps_updateParams hv
    · cases hr
    · cases hr
      obtain ⟨rfl, rfl⟩ := Prog.steps_ret hw
      rw [List.append_nil]
      exact .unfetched hlen
    · cases hr
      rw [List.append_assoc, List.singleton_append]
      rcases Prog.steps_call hw with ⟨rfl, rfl⟩ | ⟨a, u, rfl, hu⟩
      · exact .querying p hlen
      · cases a with
        | error err =>
          obtain ⟨rfl, rfl⟩ := Prog.steps_ret hu
          exact .unqueried p err hlen
        | ok dels =>
          change Prog.Steps ((processDelegations lib (withParams ce p) dels.elems).bind fun _ =>
            .ret (withParams ce p)) u q at hu
          rcases Prog.steps_bind hu with ⟨p', hp, _, rfl⟩ | ⟨x, v, w, rfl, hp, hw⟩
          · exact .processing p dels hlen hp
          · obtain ⟨rfl, rfl⟩ := Prog.steps_ret hw
            rw [List.append_nil]
            exact .processing p dels hlen hp

theorem steps_processDelegations_of
    {dels : List (Option Delegation)} {batches : List (List (Option Delegation))} {u : ClientTrace}
    (hw : workList lib ce dels = .ok batches) (hs : Sent lib ce batches u) :
    Prog.Steps (processDelegations lib ce dels) u (.ret ()) := by
  rw [processDelegations_eq, hw]
  exact hs.steps

/-- A tick whose first attempt to fetch the parameters succeeds. -/
theorem steps_tick_of {p : StakingParams}
    {dels : Slice (Option Delegation)} {u : ClientTrace} {q : Client Unit}
    (h : Prog.Steps (processDelegations lib (withParams ce p) dels.elems) u q) :
    Prog.Steps (tick lib ce) (fetched p :: queried ce dels :: u)
      (q.bind fun _ => .ret (withParams ce p)) :=
  .call (I := clientController) (c := .queryStakingParams) (.ok p)
    (.call (I := clientController) (c := .queryPendingDelegations ce.config.delegationLimit)
      (.ok dels) (h.bind_left fun _ => .ret (withParams ce p)))

/-- A tick begins with the parameters. With them it goes on to the delegations. -/
theorem exists_tick_eq (lib : Lib) (ce : CovenantEmulator) :
    ∃ k, tick lib ce = .call .queryStakingParams k ∧
      ∀ p, k (.ok p) = .call (.queryPendingDelegations ce.config.delegationLimit) fun
        | .error _ => .ret (withParams ce p)
        | .ok dels => (processDelegations lib (withParams ce p) dels.elems).bind fun _ =>
            .ret (withParams ce p) := by
  unfold tick
  simp only [updateParams_eq, queryParamsOnce_eq, Prog.bind_eq, rtyAttNum, Prog.retryDo, Prog.ask,
    Prog.call_bind, Prog.ret_bind]
  refine ⟨_, rfl, ?_⟩
  intro p
  show (Prog.call (I := clientController) (.queryPendingDelegations _) _ : Client _) = _
  congr 1
  funext a
  cases a <;> rfl

/-! ## Discipline -/

def paramsOf : Event clientController → Option StakingParams
  | ⟨.queryStakingParams, .ok p⟩ => some p
  | _ => none

def delegationsOf : Event clientController → Option (Slice (Option Delegation))
  | ⟨.queryPendingDelegations _, .ok dels⟩ => some dels
  | _ => none

/-- What the first successful `QueryStakingParams` of a trace returned. -/
def firstParams (t : ClientTrace) : Option StakingParams := t.findSome? paramsOf

theorem firstParams_failures (errs : List GoError) : firstParams (failures errs) = none := by
  simp [firstParams, failures, paramsOf]

theorem firstParams_fetched (errs : List GoError) (p : StakingParams) (u : ClientTrace) :
    firstParams (failures errs ++ fetched p :: u) = some p := by
  have hnone := firstParams_failures errs
  unfold firstParams at hnone ⊢
  rw [List.findSome?_append, hnone, Option.none_or, List.findSome?_cons]
  rfl

/-- A success among the first attempts is not a failure. -/
theorem failures_ne_fetched {errs errs' : List GoError} {p : StakingParams} {u w : ClientTrace}
    (hlen : errs'.length < errs.length) :
    failures errs ++ u ≠ failures errs' ++ fetched p :: w := by
  intro h
  induction errs' generalizing errs with
  | nil =>
    cases errs with
    | nil => cases hlen
    | cons err errs => cases (List.cons.inj h).1
  | cons err' errs' ih =>
    cases errs with
    | nil => cases hlen
    | cons err errs => exact ih (Nat.lt_of_succ_lt_succ hlen) (List.cons.inj h).2

/-- What every tick keeps, with its trace so far and what is left of it. -/
structure TickDiscipline (lib : Lib) (ce : CovenantEmulator) (t : ClientTrace)
    (q : Client CovenantEmulator) : Prop where
  /-- `AddCovenantSignatures` runs under the parameters fetched first in this tick. -/
  entered : ∀ params btcDels, ⟨.enter params btcDels, ()⟩ ∈ t →
    ∃ p, params = some p ∧ firstParams t = some p
  /-- When all attempts fail the tick ends there, and the emulator is as it was. -/
  unfetched : ∀ errs u, errs.length = rtyAttNum → t = failures errs ++ u → u = [] ∧ q = .ret ce
  /-- Before parameters are fetched there is nothing but attempts to fetch them. -/
  waits : firstParams t = none →
    (∀ e ∈ t, e.call = .queryStakingParams) ∧ ∀ ce', q = .ret ce' → ce' = ce
  /-- When the query for the delegations fails the tick ends without a submission. -/
  unqueried : ∀ limit err, ⟨.queryPendingDelegations limit, .error err⟩ ∈ t →
    submissions t = [] ∧ (∀ params btcDels, ⟨.enter params btcDels, ()⟩ ∉ t) ∧ ∃ ce', q = .ret ce'
  /-- Only the content of queried delegations can make the emulator panic or hang. -/
  halts : ∀ x, q = .halt x → ∃ p dels, firstParams t = some p ∧ queried ce dels ∈ t ∧
    Fatal lib (withParams ce p) dels.elems x

theorem mem_failures {errs : List GoError} {e : Event clientController} (h : e ∈ failures errs) :
    ∃ err, e = ⟨.queryStakingParams, .error err⟩ := by
  obtain ⟨err, _, rfl⟩ := List.mem_map.mp h
  exact ⟨err, rfl⟩

theorem not_mem_failures {errs : List GoError} {e : Event clientController}
    (h : e.call ≠ .queryStakingParams) : e ∉ failures errs := by
  intro he
  obtain ⟨err, rfl⟩ := mem_failures he
  exact h rfl

/-- Failed attempts to fetch the parameters leave no trace in what is read of a run. -/
theorem filterMap_failures {β : Type} {f : Event clientController → Option β}
    (h : ∀ err, f ⟨.queryStakingParams, .error err⟩ = none) (errs : List GoError) (u : ClientTrace) :
    (failures errs ++ u).filterMap f = u.filterMap f := by
  induction errs with
  | nil => rfl
  | cons err errs ih => exact (List.filterMap_cons_none (h err)).trans ih

/-- The calls that only read from the chain. -/
def IsQuery : Event clientController → Prop
  | ⟨.queryStakingParams, _⟩ => True
  | ⟨.queryPendingDelegations _, _⟩ => True
  | _ => False

theorem isQuery_failures_append {errs : List GoError} {u : ClientTrace} (hu : ∀ e ∈ u, IsQuery e) :
    ∀ e ∈ failures errs ++ u, IsQuery e := by
  intro e he
  rcases List.mem_append.mp he with he | he
  · obtain ⟨err, rfl⟩ := mem_failures he
    trivial
  · exact hu e he

/-- A tick reads first. Whatever it does afterwards it does under the parameters it
fetched, on the delegations it queried. -/
theorem TickRun.split (h : TickRun lib ce t q) :
    ∃ pre u, t = pre ++ u ∧ (∀ e ∈ pre, IsQuery e) ∧
      (u = [] ∨ ∃ p dels q', firstParams t = some p ∧ fetched p ∈ pre ∧ queried ce dels ∈ pre ∧
        pre.filterMap delegationsOf = [dels] ∧
        Prog.Steps (processDelegations lib (withParams ce p) dels.elems) u q') := by
  cases h with
  | @fetching errs c k hlen =>
    exact ⟨failures errs ++ [], [], by simp, isQuery_failures_append nofun, Or.inl rfl⟩
  | @unfetched errs hlen =>
    exact ⟨failures errs ++ [], [], by simp, isQuery_failures_append nofun, Or.inl rfl⟩
  | querying p hlen =>
    refine ⟨_, [], (List.append_nil _).symm, ?_, Or.inl rfl⟩
    exact isQuery_failures_append (List.forall_mem_singleton.mpr trivial)
  | unqueried p err hlen =>
    refine ⟨_, [], (List.append_nil _).symm, ?_, Or.inl rfl⟩
    exact isQuery_failures_append (List.forall_mem_cons.mpr
      ⟨trivial, List.forall_mem_singleton.mpr trivial⟩)
  | @processing errs p dels u q' hlen hs =>
    refine ⟨failures errs ++ [fetched p, queried ce dels], u, by simp, ?_, Or.inr ⟨p, dels, q',
      firstParams_fetched _ _ _, by simp, by simp, ?_, hs⟩⟩
    · exact isQuery_failures_append (List.forall_mem_cons.mpr
        ⟨trivial, List.forall_mem_singleton.mpr trivial⟩)
    · exact filterMap_failures (fun _ => rfl) errs _

/-- A tick that has queried delegations is working on them. -/
theorem TickRun.processing_of_queried (h : TickRun lib ce t q) {dels : Slice (Option Delegation)}
    (hq : queried ce dels ∈ t) :
    ∃ errs p u q', t = failures errs ++ fetched p :: queried ce dels :: u ∧
      q = q'.bind (fun _ => .ret (withParams ce p)) ∧
      Prog.Steps (processDelegations lib (withParams ce p) dels.elems) u q' := by
  have hfail : ∀ errs, queried ce dels ∉ failures errs := fun _ => not_mem_failures nofun
  cases h with
  | fetching => exact absurd hq (hfail _)
  | unfetched => exact absurd hq (hfail _)
  | querying p =>
    rcases List.mem_append.mp hq with hq | hq
    · exact absurd hq (hfail _)
    · cases List.mem_singleton.mp hq
  | unqueried p err =>
    rcases List.mem_append.mp hq with hq | hq
    · exact absurd hq (hfail _)
    · simp [queried, fetched] at hq
  | @processing errs p dels' u q' hlen hs =>
    obtain rfl : dels' = dels := by
      rcases List.mem_append.mp hq with hq | hq
      · exact absurd hq (hfail _)
      · simp only [List.mem_cons] at hq
        rcases hq with hq | hq | hq
        · cases hq
        · cases hq
          rfl
        · obtain ⟨_, _, hev⟩ := processDelegations_events hs hq
          cases hev
    exact ⟨errs, p, u, q', rfl, rfl, hs⟩

/-- The limit of the query is that of the configuration. -/
theorem TickRun.limit_eq (h : TickRun lib ce t q) {limit : UInt64} {dels : Slice (Option Delegation)}
    (hmem : ⟨.queryPendingDelegations limit, .ok dels⟩ ∈ t) : limit = ce.config.delegationLimit := by
  have hfail : ∀ errs, ⟨.queryPendingDelegations limit, .ok dels⟩ ∉ failures errs :=
    fun errs => not_mem_failures nofun
  cases h with
  | fetching => exact absurd hmem (hfail _)
  | unfetched => exact absurd hmem (hfail _)
  | querying p =>
    have hmem := (List.mem_append.mp hmem).resolve_left (hfail _)
    cases List.mem_singleton.mp hmem
  | unqueried p err =>
    have hmem := (List.mem_append.mp hmem).resolve_left (hfail _)
    simp [fetched] at hmem
  | @processing errs p dels' u q' hlen hs =>
    have hmem := (List.mem_append.mp hmem).resolve_left (hfail _)
    rcases List.mem_cons.mp hmem with hmem | hmem
    · cases hmem
    · rcases List.mem_cons.mp hmem with hmem | hmem
      · cases hmem
        rfl
      · obtain ⟨_, _, hev⟩ := processDelegations_events hs hmem
        cases hev

/-- An event that is not a query, in a trace that starts with queries. -/
theorem append_eq_of_queries {pre u v w : ClientTrace} {e : Event clientController}
    (hpre : ∀ x ∈ pre, IsQuery x) (he : ¬ IsQuery e) (h : pre ++ u = v ++ e :: w) :
    ∃ v', v = pre ++ v' ∧ u = v' ++ e :: w := by
  rcases List.append_eq_append_iff.mp h with ⟨v', rfl, rfl⟩ | ⟨c, rfl, hc⟩
  · exact ⟨v', rfl, rfl⟩
  · cases c with
    | nil => exact ⟨[], by simp, hc.symm⟩
    | cons x c =>
      cases (List.cons.inj hc).1
      exact absurd (hpre e (by simp)) he

/-- A submission of a tick, with the batch it is made for. -/
theorem TickRun.adjacent
    {params : Option StakingParams} {b : List (Option Delegation)} {l : List CovenantSigs}
    {res : Except GoError TxResponse} {v w : ClientTrace}
    (h : TickRun lib ce (v ++ ⟨.enter params b, ()⟩ :: ⟨.submitCovenantSigs l, res⟩ :: w) q) :
    ∃ p dels batches, fetched p ∈ v ∧ queried ce dels ∈ v ∧ params = some p ∧
      workList lib (withParams ce p) dels.elems = .ok batches ∧ b ∈ batches ∧
      collectBatch lib (withParams ce p) b = .ok (some l) := by
  obtain ⟨pre, u, ht, hpre, hu⟩ := h.split
  obtain ⟨v', rfl, rfl⟩ := append_eq_of_queries hpre id ht.symm
  rcases hu with hu | ⟨p, dels, q', _, hp, hd, _, hs⟩
  · simp at hu
  · rcases steps_processDelegations hs with ⟨_, _, hnil, _⟩ | ⟨batches, hw, hs⟩
    · simp at hnil
    · obtain ⟨rfl, hb, hc⟩ := submitBatches_adjacent hs
      exact ⟨p, dels, batches, List.mem_append_left _ hp, List.mem_append_left _ hd, rfl, hw, hb, hc⟩

/-! ## Submissions of a tick -/

theorem submissions_queries {pre : ClientTrace} (h : ∀ e ∈ pre, IsQuery e) (u : ClientTrace) :
    submissions (pre ++ u) = submissions u := by
  have hnil : submissions pre = [] := by
    apply List.filterMap_eq_nil_iff.mpr
    intro e he
    rcases e with ⟨_ | _ | _ | _, a⟩
    · rfl
    · rfl
    · exact (h _ he).elim
    · rfl
  unfold submissions at hnil ⊢
  rw [List.filterMap_append, hnil, List.nil_append]

/-- What a tick submits, with the parameters it fetched and the delegations it queried. -/
theorem TickRun.signed (h : TickRun lib ce t q) :
    submissions t = [] ∨ ∃ p dels ds xs, fetched p ∈ t ∧ queried ce dels ∈ t ∧
      t.filterMap delegationsOf = [dels] ∧ dels.elems = ds.map some ∧
      xs.Sublist (unsigned lib (withParams ce p) ds) ∧
      List.Forall₂ (fun d s => signDelegation lib (withParams ce p) (some d) = .ok (some s)) xs
        (submissions t).flatten := by
  obtain ⟨pre, u, rfl, hpre, hu⟩ := h.split
  rw [submissions_queries hpre]
  rcases hu with rfl | ⟨p, dels, q', _, hp, hd, honly, hs⟩
  · exact Or.inl rfl
  · rcases processDelegations_signed dels.len_lt hs with hnil | ⟨ds, xs, hds, hxs, hf⟩
    · exact Or.inl hnil
    · refine Or.inr ⟨p, dels, ds, xs, List.mem_append_left _ hp, List.mem_append_left _ hd, ?_, hds,
        hxs, hf⟩
      have hnone : u.filterMap delegationsOf = [] := by
        apply List.filterMap_eq_nil_iff.mpr
        intro e he
        obtain ⟨_, _, hb⟩ := processDelegations_events hs he
        cases hb <;> rfl
      rw [List.filterMap_append, honly, hnone, List.append_nil]

theorem TickRun.unfetched_end (h : TickRun lib ce t q) {errs : List GoError} {u : ClientTrace}
    (hlen : errs.length = rtyAttNum) (ht : t = failures errs ++ u) : u = [] ∧ q = .ret ce := by
  have hcount : ∀ {errs'}, failures errs' = failures errs ++ u →
      errs'.length = errs.length + u.length := by
    intro errs' heq
    have := congrArg List.length heq
    simpa [failures] using this
  cases h with
  | fetching hlt =>
    have := hcount ht
    omega
  | unfetched hn =>
    have := hcount ht
    exact ⟨List.length_eq_zero_iff.mp (by omega), rfl⟩
  | querying p hlt => exact absurd ht.symm (failures_ne_fetched (hlen ▸ hlt))
  | unqueried p err hlt => exact absurd ht.symm (failures_ne_fetched (hlen ▸ hlt))
  | processing p dels hlt hs => exact absurd ht.symm (failures_ne_fetched (hlen ▸ hlt))

theorem TickRun.waits (h : TickRun lib ce t q) (hnone : firstParams t = none) :
    (∀ e ∈ t, e.call = .queryStakingParams) ∧ ∀ ce', q = .ret ce' → ce' = ce := by
  have hfail : ∀ {errs}, ∀ e ∈ failures errs, e.call = .queryStakingParams := by
    intro errs e he
    obtain ⟨err, rfl⟩ := mem_failures he
    rfl
  cases h with
  | fetching hlt =>
    refine ⟨hfail, ?_⟩
    intro ce' hq
    cases hq
  | unfetched hn =>
    refine ⟨hfail, ?_⟩
    intro ce' hq
    exact (Prog.ret.inj hq).symm
  | querying p hlt =>
    rw [firstParams_fetched] at hnone
    cases hnone
  | unqueried p err hlt =>
    rw [firstParams_fetched] at hnone
    cases hnone
  | processing p dels hlt hs =>
    rw [firstParams_fetched] at hnone
    cases hnone

theorem TickRun.unqueried_end (h : TickRun lib ce t q) {limit : UInt64} {err : GoError}
    (he : ⟨.queryPendingDelegations limit, .error err⟩ ∈ t) :
    submissions t = [] ∧ (∀ params btcDels, ⟨.enter params btcDels, ()⟩ ∉ t) ∧
      ∃ ce', q = .ret ce' := by
  have hfail : ∀ {errs}, ⟨.queryPendingDelegations limit, .error err⟩ ∉ failures errs :=
    not_mem_failures nofun
  cases h with
  | fetching hlt => exact absurd he hfail
  | unfetched hn => exact absurd he hfail
  | querying p hlt =>
    have hmem := (List.mem_append.mp he).resolve_left hfail
    cases List.mem_singleton.mp hmem
  | unqueried p err' hlt =>
    refine ⟨filterMap_failures (fun _ => rfl) _ _, ?_, _, rfl⟩
    intro params btcDels hmem
    have hmem := (List.mem_append.mp hmem).resolve_left (not_mem_failures nofun)
    rcases List.mem_cons.mp hmem with hmem | hmem
    · cases hmem
    · cases List.mem_singleton.mp hmem
  | processing p dels hlt hs =>
    have hmem := (List.mem_append.mp he).resolve_left hfail
    rcases List.mem_cons.mp hmem with hmem | hmem
    · cases hmem
    · rcases List.mem_cons.mp hmem with hmem | hmem
      · cases hmem
      · obtain ⟨_, _, hb⟩ := processDelegations_events hs hmem
        cases hb

theorem TickRun.halts (h : TickRun lib ce t q) {x : Halt} (hq : q = .halt x) :
    ∃ p dels, firstParams t = some p ∧ queried ce dels ∈ t ∧
      Fatal lib (withParams ce p) dels.elems x := by
  cases h with
  | fetching hlt => cases hq
  | unfetched hn => cases hq
  | querying p hlt => cases hq
  | unqueried p err hlt => cases hq
  | @processing _ p dels u q' hlt hs =>
    cases q' with
    | ret a => cases hq
    | halt y =>
      cases hq
      exact ⟨p, dels, firstParams_fetched _ _ _, by simp, processDelegations_halt hs⟩
    | call c k => cases hq

/-- A tick changes nothing of the emulator but its parameters. -/
theorem TickRun.ret_eq {lib : Lib} {ce ce' : CovenantEmulator}
    (h : TickRun lib ce t q) (hq : q = .ret ce') :
    ce' = ce ∨ ∃ p, ce' = withParams ce p := by
  cases h with
  | fetching hlt => cases hq
  | unfetched hn => exact Or.inl (Prog.ret.inj hq).symm
  | querying p hlt => cases hq
  | unqueried p err hlt => exact Or.inr ⟨p, (Prog.ret.inj hq).symm⟩
  | @processing _ p dels u q' hlt hs =>
    cases q' with
    | ret a => exact Or.inr ⟨p, (Prog.ret.inj hq).symm⟩
    | halt x => cases hq
    | call c k => cases hq

theorem TickRun.discipline (h : TickRun lib ce t q) : TickDiscipline lib ce t q where
  entered params btcDels he := by
    obtain ⟨pre, u, rfl, hpre, hu⟩ := h.split
    rcases List.mem_append.mp he with he | he
    · exact (hpre _ he).elim
    · rcases hu with rfl | ⟨p, dels, q', hp, _, _, _, hs⟩
      · cases he
      · obtain ⟨_, _, hb⟩ := processDelegations_events hs he
        cases hb
        exact ⟨p, rfl, hp⟩
  unfetched _ _ hlen ht := h.unfetched_end hlen ht
  waits hnone := h.waits hnone
  unqueried _ _ he := h.unqueried_end he
  halts _ hq := h.halts hq

/-- **Ticks of the loop.** Every tick of every run keeps the discipline. Whatever is
answered to its remaining calls, it ends and the next tick begins, unless the content
of the queried delegations is fatal. -/
theorem tick_discipline (lib : Lib) (ce₀ ce : CovenantEmulator)
    (as bs : List (Reactor.Action clientController CovenantEmulator)) (t : ClientTrace)
    (ph : Reactor.Phase clientController Halt CovenantEmulator)
    (h : Reactor.Run (tick lib) ce₀ (as ++ .tick ce :: t.map .event ++ bs) ph) :
    ∃ q, Reactor.Run (tick lib) ce₀ (as ++ .tick ce :: t.map .event) (.busy q) ∧
      TickDiscipline lib ce t q ∧ (∀ ce' bs', bs = .done ce' :: bs' → q = .ret ce') ∧
      ∀ ans, let u := (q.play ans).1
        (∃ ce', Reactor.Run (tick lib) ce₀
          (as ++ .tick ce :: (t ++ u).map .event ++ [.done ce'] ++ [.tick ce'])
          (.busy (tick lib ce'))) ∨
        ∃ p dels x, firstParams (t ++ u) = some p ∧ queried ce dels ∈ t ++ u ∧
          Fatal lib (withParams ce p) dels.elems x := by
  obtain ⟨ph', h'⟩ : ∃ ph', Reactor.Run (tick lib) ce₀ (as ++ .tick ce :: t.map .event) ph' := h.of_append
  obtain ⟨hsel, q, rfl, hq⟩ := h'.round
  refine ⟨q, h', (steps_tick hq).discipline, ?_, ?_⟩
  · rintro ce' bs' rfl
    rw [List.append_cons] at h
    obtain ⟨_, hdone⟩ := h.of_append
    obtain ⟨ph'', hbusy, hs⟩ := Labelled.run_snoc hdone
    obtain rfl := h'.det hbusy
    cases hs
    rfl
  · intro ans u
    have hplay := Prog.steps_play ans q
    cases hr : (q.play ans).2 with
    | ok ce' =>
      rw [hr] at hplay
      refine Or.inl ⟨ce', .snoc (.snoc ?_ (.done ce')) (.tick ce')⟩
      rw [List.map_append, ← List.cons_append, ← List.append_assoc]
      exact h'.steps hplay
    | error x =>
      rw [hr] at hplay
      obtain ⟨p, dels, hp, hd, hf⟩ := (steps_tick (hq.trans hplay)).halts rfl
      exact Or.inr ⟨p, dels, x, hp, hd, hf⟩

/-- The member with key `pk` as it is started. -/
def startWith (pk : PublicKey) : CovenantEmulator :=
  { emulatorWith pk sampleParams with params := none }

def sampleDels : Slice (Option Delegation) := ⟨[some sampleDelegation], by decide⟩

/-- Its tick on the sample delegation under fetched parameters, with an answer to the
submission. -/
def tickWith (pk : PublicKey) (params : StakingParams) (res : Except GoError TxResponse) :
    ClientTrace :=
  [fetched params, queried (startWith pk) sampleDels,
    ⟨.enter (some params) [some sampleDelegation], ()⟩,
    ⟨.submitCovenantSigs [sigsWith pk params], res⟩]

theorem steps_tickWith (pk : PublicKey) (params : StakingParams) (hp : LikeSample params)
    (res : Except GoError TxResponse) :
    Prog.Steps (tick sampleLib (startWith pk)) (tickWith pk params res)
      (.ret (emulatorWith pk params)) := by
  have hw : workList sampleLib (emulatorWith pk params) [some sampleDelegation] =
      .ok [[some sampleDelegation]] := rfl
  have hs := Sent.submit res (collectBatch_like pk params hp) .nil
  exact steps_tick_of (steps_processDelegations_of hw hs)

/-- A tick in which the submission fails. -/
def sampleTick : ClientTrace := tickWith (key 1) sampleParams (.error "timeout")

theorem tick_discipline_sample :
    Reactor.Run (tick sampleLib) (startWith (key 1))
        ([] ++ .tick (startWith (key 1)) :: sampleTick.map .event ++ [.done sampleEmulator])
        (.select sampleEmulator) ∧
      TickDiscipline sampleLib (startWith (key 1)) sampleTick (.ret sampleEmulator) := by
  have hinit : Reactor.Run (tick sampleLib) (startWith (key 1)) [] (.select (startWith (key 1))) :=
    .init
  have hrun := hinit.complete (steps_tickWith (key 1) sampleParams likeSample (.error "timeout"))
  obtain ⟨q, _, hd, hdone, _⟩ := tick_discipline sampleLib (startWith (key 1)) (startWith (key 1)) []
    [.done sampleEmulator] sampleTick _ hrun
  obtain rfl := hdone sampleEmulator [] rfl
  exact ⟨hrun, hd⟩

end Covenant.Ticks
