import Covenant.Ticks

/-! What batching does to a tick. A batch is submitted as a whole or not at all, so
whether a delegation is signed depends on the others in its batch; it does not exactly
when all the unsigned delegations pass, or none does (`batching_invisible_iff`). Every
unsigned delegation is attempted once (`unsigned_attempted_once`). -/

namespace Covenant.Batches
open Outcome Interaction Batching Bitcoin Covenant.Types Emulator Signing Loop Reference Gate Runs
  Ticks

/-! ## A tick whose calls all succeed -/

/-- The chain returns the given parameters and delegations, and accepts every submission. -/
def answersFor (p : StakingParams) (dels : Slice (Option Delegation)) (res : TxResponse) :
    (c : ClientCall) → c.Answer
  | .queryStakingParams => .ok p
  | .queryPendingDelegations _ => .ok dels
  | .submitCovenantSigs _ => .ok res
  | .enter _ _ => ()

def withBatchSize (ce : CovenantEmulator) (b : UInt64) : CovenantEmulator :=
  { ce with config := { ce.config with sigsBatchSize := b } }

/-- A list of delegations as a list of pointers to them. -/
def pointers (ds : Slice Delegation) : Slice (Option Delegation) where
  elems := ds.elems.map some
  len_lt := by
    rw [List.length_map]
    exact ds.len_lt

/-- A tick whose two queries succeed. -/
theorem play_tick {lib : Lib} {ce : CovenantEmulator} {p : StakingParams}
    {dels : Slice (Option Delegation)} {ans : (c : ClientCall) → c.Answer}
    (hp : ans .queryStakingParams = .ok p)
    (hd : ans (.queryPendingDelegations ce.config.delegationLimit) = .ok dels) :
    ((tick lib ce).play ans).1 = fetched p :: queried ce dels ::
      ((processDelegations lib (withParams ce p) dels.elems).play ans).1 := by
  obtain ⟨k, htick, hk⟩ := exists_tick_eq lib ce
  rw [htick, Prog.play_call, hp, hk, Prog.play_call, hd]
  show fetched p :: queried ce dels ::
    (((processDelegations lib (withParams ce p) dels.elems).bind fun _ =>
      .ret (withParams ce p)).play ans).1 = _
  rw [Prog.play_bind]
  cases ((processDelegations lib (withParams ce p) dels.elems).play ans).2 <;> simp

/-- The signatures that a tick submits under batch size `b`. -/
def tickSigs (lib : Lib) (ce : CovenantEmulator) (p : StakingParams) (ds : Slice Delegation)
    (res : TxResponse) (b : UInt64) : List CovenantSigs :=
  (submissions ((tick lib (withBatchSize ce b)).play (answersFor p (pointers ds) res)).1).flatten

/-- Batches none of which panics are all worked off. -/
theorem play_submitBatches {lib : Lib} {ce : CovenantEmulator}
    {batches : List (List (Option Delegation))}
    (h : ∀ b ∈ batches, ∀ msg, collectBatch lib ce b ≠ .error (.panic msg))
    (ans : (c : ClientCall) → c.Answer) :
    Sent lib ce batches ((submitBatches lib ce batches).play ans).1 := by
  obtain ⟨pre, post, u₁, u₂, heq, hu, hs, hc⟩ :=
    steps_submitBatches (Prog.steps_play ans (submitBatches lib ce batches))
  generalize hq : (Prog.ofExcept ((submitBatches lib ce batches).play ans).2 : Client Unit) = q at hc
  have hend : u₂ = [] ∧ post = [] := by
    cases hc with
    | idle =>
      cases post with
      | nil => exact ⟨rfl, rfl⟩
      | cons b bs =>
        cases hr : ((submitBatches lib ce batches).play ans).2 <;> rw [hr] at hq <;> cases hq
    | panicked bs hb => exact absurd hb (h _ (by simp [heq]) _)
    | submitting bs k hb =>
      cases hr : ((submitBatches lib ce batches).play ans).2 <;> rw [hr] at hq <;> cases hq
  obtain ⟨rfl, rfl⟩ := hend
  rw [hu, heq, List.append_nil, List.append_nil]
  exact hs

/-- What a batch submits, if it does. -/
def collected (lib : Lib) (ce : CovenantEmulator) (b : List (Option Delegation)) :
    Option (List CovenantSigs) :=
  match collectBatch lib ce b with
  | .ok (some l) => some l
  | _ => none

theorem collected_eq_some_iff {lib : Lib} {ce : CovenantEmulator} {b : List (Option Delegation)}
    {l : List CovenantSigs} : collected lib ce b = some l ↔ collectBatch lib ce b = .ok (some l) := by
  unfold collected
  rcases collectBatch lib ce b with _ | _ | l' <;> simp

theorem collected_of_declined {lib : Lib} {ce : CovenantEmulator} {b : List (Option Delegation)}
    (h : Declined lib ce b) : collected lib ce b = none := by
  unfold collected
  rcases h with h | ⟨err, h⟩ <;> rw [h]

theorem submissions_sent {lib : Lib} {ce : CovenantEmulator} {bs : List (List (Option Delegation))}
    {u : ClientTrace} (h : Sent lib ce bs u) : submissions u = bs.filterMap (collected lib ce) := by
  induction h with
  | nil => rfl
  | decline hd _ ih =>
    rw [List.filterMap_cons_none (collected_of_declined hd), ← ih]
    rfl
  | submit res hc _ ih =>
    rw [List.filterMap_cons_some (collected_eq_some_iff.mpr hc), ← ih]
    rfl

/-- The entries of a submitted batch come from its delegations, and each has one. -/
theorem mem_collected_iff {lib : Lib} {ce : CovenantEmulator} {b : List (Option Delegation)}
    {l : List CovenantSigs} (h : collectBatch lib ce b = .ok (some l)) (s : CovenantSigs) :
    s ∈ l ↔ ∃ d ∈ b, signDelegation lib ce d = .ok (some s) := by
  have hf := ((collectBatch_eq_some_iff lib ce b l).mp h).2
  clear h
  induction hf with
  | nil => simp
  | @cons d s' b l hd _ ih =>
    constructor
    · intro hs
      rcases List.mem_cons.mp hs with rfl | hs
      · exact ⟨d, List.mem_cons_self .., hd⟩
      · obtain ⟨d', hd', hsd⟩ := ih.mp hs
        exact ⟨d', List.mem_cons_of_mem _ hd', hsd⟩
    · rintro ⟨d', hd', hs⟩
      rcases List.mem_cons.mp hd' with rfl | hd'
      · rw [hd] at hs
        cases hs
        exact List.mem_cons_self ..
      · exact List.mem_cons_of_mem _ (ih.mpr ⟨d', hd', hs⟩)

/-! ## Signatures of a tick -/

section

variable (lib : Lib) (ce : CovenantEmulator) (p : StakingParams) (ds : Slice Delegation)
  (res : TxResponse)

/-- The batch size plays no part in signing. -/
theorem signDelegation_withBatchSize (b : UInt64) (d : Option Delegation) :
    signDelegation lib (withParams (withBatchSize ce b) p) d =
      signDelegation lib (withParams ce p) d := by
  cases d <;> rfl

theorem collectSigs_withBatchSize (b : UInt64) (acc : List CovenantSigs)
    (dels : List (Option Delegation)) :
    collectSigs lib (withParams (withBatchSize ce b) p) acc dels =
      collectSigs lib (withParams ce p) acc dels := by
  induction dels generalizing acc with
  | nil => rfl
  | cons d dels ih =>
    rw [collectSigs_cons, collectSigs_cons, signDelegation_withBatchSize]
    rcases signDelegation lib (withParams ce p) d with _ | _ | s
    · rfl
    · rfl
    · exact ih _

theorem collectBatch_withBatchSize (b : UInt64) (dels : List (Option Delegation)) :
    collectBatch lib (withParams (withBatchSize ce b) p) dels =
      collectBatch lib (withParams ce p) dels := by
  unfold collectBatch
  rw [collectSigs_withBatchSize]

/-- The batches of a tick under batch size `b`. -/
theorem workList_withBatchSize {b : UInt64} (hb : b ≠ 0) :
    ∃ batches, workList lib (withParams (withBatchSize ce b) p) (pointers ds).elems = .ok batches ∧
      batches.flatten = (unsigned lib ce ds.elems).map some ∧ Chunked b.toNat batches := by
  obtain ⟨_, batches, hrem, hbatches, hflat, hchunk⟩ :=
    workList_spec lib (withParams (withBatchSize ce b) p) ds.len_lt hb
  exact ⟨batches, bind_eq_ok_iff.mpr ⟨_, hrem, hbatches⟩, hflat, hchunk⟩

/-- What a tick submits is submitted for a batch of it. -/
theorem mem_tickSigs {b : UInt64} {batches : List (List (Option Delegation))}
    (hw : workList lib (withParams (withBatchSize ce b) p) (pointers ds).elems = .ok batches)
    {s : CovenantSigs} (hs : s ∈ tickSigs lib ce p ds res b) :
    ∃ x ∈ batches, ∃ l, collectBatch lib (withParams ce p) x = .ok (some l) ∧ s ∈ l := by
  obtain ⟨l, hl, hsl⟩ := List.mem_flatten.mp hs
  rw [play_tick rfl rfl] at hl
  obtain ⟨e, he, hel⟩ := List.mem_filterMap.mp hl
  rcases List.mem_cons.mp he with rfl | he
  · cases hel
  · rcases List.mem_cons.mp he with rfl | he
    · cases hel
    · obtain ⟨batches', hw', hbe⟩ := processDelegations_events (Prog.steps_play _ _) he
      rw [hw] at hw'
      cases hw'
      cases hbe with
      | enter => cases hel
      | submit r hx hc =>
        cases hel
        rw [collectBatch_withBatchSize] at hc
        exact ⟨_, hx, l, hc, hsl⟩

theorem collected_withBatchSize (b : UInt64) :
    collected lib (withParams (withBatchSize ce b) p) = collected lib (withParams ce p) := by
  funext x
  unfold collected
  rw [collectBatch_withBatchSize]

/-- When no batch panics, a tick submits for all of them. -/
theorem tickSigs_eq {b : UInt64} {batches : List (List (Option Delegation))}
    (hw : workList lib (withParams (withBatchSize ce b) p) (pointers ds).elems = .ok batches)
    (hsafe : ∀ x ∈ batches, ∀ msg, collectBatch lib (withParams ce p) x ≠ .error (.panic msg)) :
    tickSigs lib ce p ds res b = (batches.filterMap (collected lib (withParams ce p))).flatten := by
  have hsafe' : ∀ x ∈ batches, ∀ msg,
      collectBatch lib (withParams (withBatchSize ce b) p) x ≠ .error (.panic msg) := by
    intro x hx msg
    rw [collectBatch_withBatchSize]
    exact hsafe x hx msg
  have hsent := play_submitBatches hsafe' (answersFor p (pointers ds) res)
  unfold tickSigs
  rw [play_tick rfl rfl, processDelegations_eq, hw, ← collected_withBatchSize lib ce p b,
    ← submissions_sent hsent]
  rfl

/-- When everything unsigned passes, a tick submits exactly its signatures. -/
theorem mem_tickSigs_of_pass {b : UInt64} (hb : b ≠ 0)
    (hall : ∀ d ∈ unsigned lib ce ds.elems, Passes lib (withParams ce p) (some d))
    (s : CovenantSigs) :
    s ∈ tickSigs lib ce p ds res b ↔
      ∃ d ∈ unsigned lib ce ds.elems, signDelegation lib (withParams ce p) (some d) = .ok (some s) := by
  obtain ⟨batches, hw, hflat, hchunk⟩ := workList_withBatchSize lib ce p ds hb
  have hmem : ∀ x ∈ batches, ∀ d ∈ x, ∃ d' ∈ unsigned lib ce ds.elems, d = some d' := by
    intro x hx d hd
    have hin : d ∈ batches.flatten := List.mem_flatten.mpr ⟨x, hx, hd⟩
    rw [hflat] at hin
    obtain ⟨d', hd', rfl⟩ := List.mem_map.mp hin
    exact ⟨d', hd', rfl⟩
  constructor
  · intro hs
    obtain ⟨x, hx, l, hc, hsl⟩ := mem_tickSigs lib ce p ds res hw hs
    obtain ⟨d, hd, hsd⟩ := (mem_collected_iff hc s).mp hsl
    obtain ⟨d', hd', rfl⟩ := hmem x hx d hd
    exact ⟨d', hd', hsd⟩
  · rintro ⟨d, hd, hsd⟩
    have hin : some d ∈ batches.flatten := by
      rw [hflat]
      exact List.mem_map_of_mem hd
    obtain ⟨x, hx, hdx⟩ := List.mem_flatten.mp hin
    have hcol : ∀ y ∈ batches, ∃ l, collectBatch lib (withParams ce p) y = .ok (some l) := by
      intro y hy
      rw [collectBatch_succeeds_iff]
      refine ⟨(hchunk.bounds (toNat_pos hb) y hy).1, ?_⟩
      intro d' hd'
      obtain ⟨d'', hd'', rfl⟩ := hmem y hy d' hd'
      exact hall d'' hd''
    have hsafe : ∀ y ∈ batches, ∀ msg, collectBatch lib (withParams ce p) y ≠ .error (.panic msg) := by
      intro y hy msg hpanic
      obtain ⟨l, hl⟩ := hcol y hy
      rw [hl] at hpanic
      cases hpanic
    obtain ⟨l, hl⟩ := hcol x hx
    rw [tickSigs_eq lib ce p ds res hw hsafe]
    refine List.mem_flatten.mpr ⟨l, ?_, (mem_collected_iff hl s).mpr ⟨some d, hdx, hsd⟩⟩
    exact List.mem_filterMap.mpr ⟨x, hx, collected_eq_some_iff.mpr hl⟩

/-- When nothing unsigned passes, a tick submits nothing. -/
theorem tickSigs_of_no_pass {b : UInt64} (hb : b ≠ 0)
    (hnone : ∀ d ∈ unsigned lib ce ds.elems, ¬ Passes lib (withParams ce p) (some d))
    (s : CovenantSigs) : s ∉ tickSigs lib ce p ds res b := by
  intro hs
  obtain ⟨batches, hw, hflat, _⟩ := workList_withBatchSize lib ce p ds hb
  obtain ⟨x, hx, l, hc, _⟩ := mem_tickSigs lib ce p ds res hw hs
  obtain ⟨hne, hpass⟩ := (collectBatch_succeeds_iff lib (withParams ce p) x).mp ⟨l, hc⟩
  obtain ⟨d, hd⟩ := List.exists_mem_of_ne_nil x hne
  have hin : d ∈ batches.flatten := List.mem_flatten.mpr ⟨x, hx, hd⟩
  rw [hflat] at hin
  obtain ⟨d', hd', rfl⟩ := List.mem_map.mp hin
  exact hnone d' hd' (hpass _ hd)

/-- A batch that holds everything is submitted only when everything passes. -/
theorem all_pass_of_single_batch {s : CovenantSigs} (hs : s ∈ tickSigs lib ce p ds res (-1)) :
    ∀ d ∈ unsigned lib ce ds.elems, Passes lib (withParams ce p) (some d) := by
  obtain ⟨batches, hw, hflat, hchunk⟩ := workList_withBatchSize lib ce p ds (b := -1) (by decide)
  obtain ⟨x, hx, l, hc, _⟩ := mem_tickSigs lib ce p ds res hw hs
  obtain ⟨hne, hpass⟩ := (collectBatch_succeeds_iff lib (withParams ce p) x).mp ⟨l, hc⟩
  have hlen : batches.flatten.length ≤ (-1 : UInt64).toNat := by
    have hle := List.length_filter_le (fun del => !alreadySigned lib ce del) ds.elems
    have hds := ds.len_lt
    rw [hflat, List.length_map, show (-1 : UInt64).toNat = 2 ^ 64 - 1 from rfl]
    unfold unsigned
    omega
  have hflatne : batches.flatten ≠ [] := by
    obtain ⟨d, hd⟩ := List.exists_mem_of_ne_nil x hne
    exact List.ne_nil_of_mem (List.mem_flatten.mpr ⟨x, hx, hd⟩)
  have hone := hchunk.single hflatne hlen
  rw [hone, hflat] at hx
  obtain rfl := List.mem_singleton.mp hx
  intro d hd
  exact hpass _ (List.mem_map_of_mem hd)

/-! ## Independence of the batches -/

/-- An unsigned delegation that `AddCovenantSignatures`, handed alone, submits `s` for. -/
def SignedAlone (s : CovenantSigs) : Prop :=
  ∃ d ∈ unsigned lib ce ds.elems,
    submissions ((addCovenantSignatures lib (withParams ce p) [some d]).play
      (answersFor p (pointers ds) res)).1 = [[s]]

theorem signedAlone_iff (s : CovenantSigs) : SignedAlone lib ce p ds res s ↔
    ∃ d ∈ unsigned lib ce ds.elems, signDelegation lib (withParams ce p) (some d) = .ok (some s) := by
  unfold SignedAlone
  refine exists_congr fun d => and_congr_right fun _ => ?_
  have hone : collectBatch lib (withParams ce p) [some d] = .ok (some [s]) ↔
      signDelegation lib (withParams ce p) (some d) = .ok (some s) := by
    simp [collectBatch_eq_some_iff]
  rw [submissions_play, ← hone]
  rcases collectBatch lib (withParams ce p) [some d] with e | _ | l <;> simp

/-- Two batch sizes submit the same signatures, those of the delegations that are signed
when handed alone. -/
def BatchingInvisible : Prop :=
  ∀ b₁ b₂ : UInt64, b₁ ≠ 0 → b₂ ≠ 0 →
    (∀ s, s ∈ tickSigs lib ce p ds res b₁ ↔ s ∈ tickSigs lib ce p ds res b₂) ∧
      ∀ s, s ∈ tickSigs lib ce p ds res b₁ ↔ SignedAlone lib ce p ds res s

/-- An unsigned delegation that passes next to one that does not. -/
theorem not_invisible_of_mixed {d d' : Delegation} (hd : d ∈ unsigned lib ce ds.elems)
    (hpass : Passes lib (withParams ce p) (some d)) (hd' : d' ∈ unsigned lib ce ds.elems)
    (hfail : ¬ Passes lib (withParams ce p) (some d')) : ¬ BatchingInvisible lib ce p ds res := by
  intro h
  obtain ⟨s, hs⟩ := (passes_iff lib (withParams ce p) (some d)).mp hpass
  have halone : SignedAlone lib ce p ds res s := (signedAlone_iff lib ce p ds res s).mpr ⟨d, hd, hs⟩
  have hmem := ((h (-1) (-1) (by decide) (by decide)).2 s).mpr halone
  exact hfail (all_pass_of_single_batch lib ce p ds res hmem d' hd')

/-- **Batching is visible.** A tick signs exactly what it would sign delegation by
delegation, under every batch size, exactly when all its unsigned delegations pass or
none does. -/
theorem batching_invisible_iff : BatchingInvisible lib ce p ds res ↔
    (∀ d ∈ unsigned lib ce ds.elems, Passes lib (withParams ce p) (some d)) ∨
      ∀ d ∈ unsigned lib ce ds.elems, ¬ Passes lib (withParams ce p) (some d) := by
  constructor
  · intro h
    by_cases hall : ∀ d ∈ unsigned lib ce ds.elems, Passes lib (withParams ce p) (some d)
    · exact Or.inl hall
    · simp only [not_forall] at hall
      obtain ⟨d', hd', hfail⟩ := hall
      right
      intro d hd hpass
      exact not_invisible_of_mixed lib ce p ds res hd hpass hd' hfail h
  · rintro (hall | hnone) b₁ b₂ h₁ h₂
    · have hmem := fun b hb => mem_tickSigs_of_pass lib ce p ds res (b := b) hb hall
      refine ⟨?_, ?_⟩
      · intro s
        rw [hmem b₁ h₁, hmem b₂ h₂]
      · intro s
        rw [hmem b₁ h₁, signedAlone_iff]
    · have hempty := fun b hb => tickSigs_of_no_pass lib ce p ds res (b := b) hb hnone
      refine ⟨?_, ?_⟩
      · intro s
        exact iff_of_false (hempty b₁ h₁ s) (hempty b₂ h₂ s)
      · intro s
        apply iff_of_false (hempty b₁ h₁ s)
        rw [signedAlone_iff]
        rintro ⟨d, hd, hs⟩
        exact hnone d hd ((passes_iff lib (withParams ce p) (some d)).mpr ⟨s, hs⟩)

end

/-- The sample delegation with an unbonding time that is too short. -/
def shortDelegation : Delegation := { sampleDelegation with unbondingTime := 100 }

theorem shortDelegation_fails : ¬ Passes sampleLib sampleEmulator (some shortDelegation) := by
  rintro ⟨a⟩
  have hgt := a.checks.unbondingTime_gt
  have hp : sampleParams = a.params := Option.some.inj a.params_eq
  have hd : shortDelegation = a.del := Option.some.inj a.del_eq
  rw [← hp, ← hd] at hgt
  exact absurd hgt (by decide)

def mixedDels : Slice Delegation := ⟨[sampleDelegation, shortDelegation], by decide⟩

/-- Next to a delegation with too short an unbonding time the sample delegation is signed
in batches of one, and not when they share a batch; neither has its quorum. -/
theorem short_delegation_deprives_other :
    (∀ d ∈ mixedDels.elems, quorumReached sampleEmulator (some d) = false) ∧
      ∀ res, ¬ BatchingInvisible sampleLib sampleEmulator sampleParams mixedDels res := by
  have hun : unsigned sampleLib sampleEmulator mixedDels.elems = mixedDels.elems := rfl
  refine ⟨by decide +kernel, ?_⟩
  intro res
  have hsample : sampleDelegation ∈ unsigned sampleLib sampleEmulator mixedDels.elems := by
    rw [hun]
    exact List.mem_cons_self ..
  have hshort : shortDelegation ∈ unsigned sampleLib sampleEmulator mixedDels.elems := by
    rw [hun]
    exact List.mem_cons_of_mem _ (List.mem_cons_self ..)
  exact not_invisible_of_mixed sampleLib sampleEmulator sampleParams mixedDels res hsample
    ⟨sampleAccepted⟩ hshort shortDelegation_fails

/-! ## Attempts -/

/-- The batches that a trace hands to `AddCovenantSignatures`, in order. -/
def attemptOf : Event clientController → Option (List (Option Delegation))
  | ⟨.enter _ btcDels, _⟩ => some btcDels
  | _ => none

def attempts (t : ClientTrace) : List (List (Option Delegation)) := t.filterMap attemptOf

theorem attempts_append (t u : ClientTrace) : attempts (t ++ u) = attempts t ++ attempts u :=
  List.filterMap_append

theorem attempts_sent {lib : Lib} {ce : CovenantEmulator} {bs : List (List (Option Delegation))}
    {u : ClientTrace} (h : Sent lib ce bs u) : attempts u = bs := by
  induction h with
  | nil => rfl
  | decline _ _ ih => exact congrArg (_ :: ·) ih
  | submit _ _ _ ih => exact congrArg (_ :: ·) ih

/-- Only a panic keeps the loop from the batches that are left: what `batches` are
attempted, and where a run of the loop over them can be. -/
structure Attempted (lib : Lib) (ce : CovenantEmulator) (batches : List (List (Option Delegation)))
    {α : Type} (u : ClientTrace) (q : Client α) : Prop where
  in_order : attempts u <+: batches
  complete : ∀ r, q = .ret r → attempts u = batches
  panicked : ∀ x, q = .halt x → ∃ done b msg, attempts u = done ++ [b] ∧
    collectBatch lib ce b = .error (.panic msg)

theorem attempted_submitBatches {lib : Lib} {ce : CovenantEmulator}
    {batches : List (List (Option Delegation))} {u : ClientTrace} {q : Client Unit}
    (h : Prog.Steps (submitBatches lib ce batches) u q) : Attempted lib ce batches u q := by
  obtain ⟨pre, post, u₁, u₂, rfl, rfl, hs, hc⟩ := steps_submitBatches h
  have hu : attempts (u₁ ++ u₂) = pre ++ attempts u₂ := by rw [attempts_append, attempts_sent hs]
  cases hc with
  | idle =>
    have hpre : attempts (u₁ ++ []) = pre := hu.trans (List.append_nil _)
    refine ⟨⟨post, by rw [hpre]⟩, ?_, ?_⟩
    · intro r hr
      cases post with
      | nil => rw [hpre, List.append_nil]
      | cons b bs => cases hr
    · intro x hx
      cases post with
      | nil => cases hx
      | cons b bs => cases hx
  | @panicked b bs msg hb =>
    have hpre : attempts (u₁ ++ [⟨.enter ce.params b, ()⟩]) = pre ++ [b] := hu
    refine ⟨⟨bs, by rw [hpre, List.append_assoc, List.singleton_append]⟩, nofun, ?_⟩
    intro x _
    exact ⟨pre, b, msg, hpre, hb⟩
  | @submitting b bs l k hb =>
    have hpre : attempts (u₁ ++ [⟨.enter ce.params b, ()⟩]) = pre ++ [b] := hu
    exact ⟨⟨bs, by rw [hpre, List.append_assoc, List.singleton_append]⟩, nofun, nofun⟩

theorem Attempted.bind_ret {lib : Lib} {ce : CovenantEmulator} {α β : Type}
    {batches : List (List (Option Delegation))} {u : ClientTrace} {q : Client α}
    (h : Attempted lib ce batches u q) (r : β) :
    Attempted lib ce batches u (q.bind fun _ => .ret r) := by
  refine ⟨h.in_order, ?_, ?_⟩
  · intro r' hr
    cases q with
    | ret x => exact h.complete x rfl
    | halt x => cases hr
    | call c k => cases hr
  · intro x hx
    cases q with
    | ret x => cases hx
    | halt y => exact h.panicked y rfl
    | call c k => cases hx

/-- A tick does nothing else with the delegations it has queried. -/
theorem attempted_tick {lib : Lib} {ce : CovenantEmulator} {dels : Slice (Option Delegation)}
    {t : ClientTrace} {q : Client CovenantEmulator} (h : Prog.Steps (tick lib ce) t q)
    (hq : queried ce dels ∈ t) :
    ∃ p, ∀ batches, workList lib (withParams ce p) dels.elems = .ok batches →
      Attempted lib (withParams ce p) batches t q := by
  obtain ⟨errs, p, u, q', rfl, rfl, hs⟩ := (steps_tick h).processing_of_queried hq
  refine ⟨p, ?_⟩
  intro batches hw
  rw [processDelegations_eq, hw] at hs
  have hatt := (attempted_submitBatches hs).bind_ret (withParams ce p)
  have hu : attempts (failures errs ++ fetched p :: queried ce dels :: u) = attempts u :=
    filterMap_failures (fun _ => rfl) errs _
  refine ⟨?_, ?_, ?_⟩
  · rw [hu]
    exact hatt.in_order
  · rw [hu]
    exact hatt.complete
  · rw [hu]
    exact hatt.panicked

/-- The batches hold, in order, the delegations without an entry of the member's x-only
key, as many in each as the batch size says. -/
structure Splits (ce : CovenantEmulator) (ds : List Delegation)
    (batches : List (List (Option Delegation))) : Prop where
  contents : batches.flatten =
    (ds.filter fun d => d.covenantSigs.all fun s => s.pk.x != ce.pk.x).map some
  nonempty : ∀ b ∈ batches, b ≠ []
  bounded : ∀ b ∈ batches, b.length ≤ ce.config.sigsBatchSize.toNat
  full : ∀ b ∈ batches.dropLast, b.length = ce.config.sigsBatchSize.toNat

theorem unsigned_eq_filter {lib : Lib} (henc : lib.KeyEncoding) (ce : CovenantEmulator)
    (ds : List Delegation) : unsigned lib ce ds =
      ds.filter fun d => d.covenantSigs.all fun s => s.pk.x != ce.pk.x := by
  unfold unsigned
  congr 1
  funext d
  simp only [alreadySigned, henc.serializePubKey_eq, List.not_any_eq_all_not, bne]

/-- **Each unsigned delegation once.** Under every batch size but zero the queried
delegations are split into batches, and a tick hands these to `AddCovenantSignatures`
one after the other, whatever the earlier calls returned. A tick whose queries succeed hands
over all of them, unless one panics. -/
theorem unsigned_attempted_once (lib : Lib) (henc : lib.KeyEncoding) (ce : CovenantEmulator)
    (hb : ce.config.sigsBatchSize ≠ 0) (ds : Slice Delegation) :
    ∃ sanitized batches, removeAlreadySigned lib ce (pointers ds).elems = .ok sanitized ∧
      delegationsToBatches ce sanitized = .ok batches ∧ Splits ce ds.elems batches ∧
      (∀ t q, Prog.Steps (tick lib ce) t q → queried ce (pointers ds) ∈ t →
        ∃ p, Attempted lib (withParams ce p) batches t q) ∧
      ∀ ans p, ans .queryStakingParams = .ok p →
        ans (.queryPendingDelegations ce.config.delegationLimit) = .ok (pointers ds) →
        (∀ b ∈ batches, ∀ msg, collectBatch lib (withParams ce p) b ≠ .error (.panic msg)) →
        attempts ((tick lib ce).play ans).1 = batches := by
  obtain ⟨sanitized, batches, hrem, hbatches, hflat, hchunk⟩ := workList_spec lib ce ds.len_lt hb
  -- the parameters play no part in the filter and the batching
  have hw : ∀ p, workList lib (withParams ce p) (pointers ds).elems = .ok batches := by
    intro p
    have hp := (removeAlreadySigned_eq_ok_iff lib (withParams ce p) (pointers ds).elems sanitized).mpr
      ((removeAlreadySigned_eq_ok_iff lib ce _ sanitized).mp hrem)
    exact bind_eq_ok_iff.mpr ⟨sanitized, hp, hbatches⟩
  refine ⟨sanitized, batches, hrem, hbatches, ?_, ?_, ?_⟩
  · have hbounds := hchunk.bounds (toNat_pos hb)
    rw [unsigned_eq_filter henc] at hflat
    exact ⟨hflat, fun b hb => (hbounds b hb).1, fun b hb => (hbounds b hb).2, hchunk.full⟩
  · intro t q ht hq
    obtain ⟨p, hatt⟩ := attempted_tick ht hq
    exact ⟨p, hatt batches (hw p)⟩
  · intro ans p hp hd hsafe
    rw [play_tick hp hd, processDelegations_eq, hw]
    change attempts ((submitBatches lib (withParams ce p) batches).play ans).1 = batches
    exact attempts_sent (play_submitBatches hsafe ans)

/-- Batches of one: the second delegation is attempted after the first one was submitted. -/
theorem unsigned_attempted_once_sample :
    attempts ((tick sampleLib (withBatchSize sampleEmulator 1)).play
      (answersFor sampleParams (pointers mixedDels) ⟨"", []⟩)).1 =
        [[some sampleDelegation], [some shortDelegation]] := by
  obtain ⟨sanitized, batches, hrem, hbatches, _, _, hplay⟩ := unsigned_attempted_once sampleLib
    sampleLib_keyEncoding (withBatchSize sampleEmulator 1) (by decide) mixedDels
  obtain rfl : [some sampleDelegation, some shortDelegation] = sanitized := Except.ok.inj hrem
  obtain rfl : [[some sampleDelegation], [some shortDelegation]] = batches := Except.ok.inj hbatches
  refine hplay (answersFor sampleParams (pointers mixedDels) ⟨"", []⟩) sampleParams rfl rfl ?_
  have hsample : ∃ l, collectBatch sampleLib sampleEmulator [some sampleDelegation] = .ok (some l) := by
    rw [collectBatch_succeeds_iff]
    refine ⟨by simp, fun d hd => ?_⟩
    rw [List.mem_singleton.mp hd]
    exact ⟨sampleAccepted⟩
  have hshort : ∃ err, collectBatch sampleLib sampleEmulator [some shortDelegation] =
      .error (.error err) := ⟨_, rfl⟩
  intro b hb msg hpanic
  rw [collectBatch_withBatchSize] at hpanic
  rcases List.mem_cons.mp hb with rfl | hb
  · obtain ⟨l, hl⟩ := hsample
    cases hl.symm.trans hpanic
  · obtain rfl := List.mem_singleton.mp hb
    obtain ⟨err, herr⟩ := hshort
    cases herr.symm.trans hpanic

end Covenant.Batches
