import Covenant.Committee

/-! Which delegations a tick works on. The query returns the first page of the pending
delegations, and those that the member has signed are removed afterwards, so they take
up room on the page. `entered_memberTick` says what a tick hands over, and
`hands_first_unsigned_iff` when this is the first unsigned delegations, as many as the
limit allows. -/

namespace Covenant.Paging
open Outcome Lists Interaction Batching Bitcoin Covenant.Types Emulator Signing Loop Controller
  Records Chain Reference Runs Ticks Member Committee

/-! ## Batches that are handed over -/

def enteredOf : Event bbnClient → Option (List (Option Delegation))
  | ⟨.enter _ btcDels, _⟩ => some btcDels
  | _ => none

/-- The batches that the calls of `AddCovenantSignatures` in a trace are given. -/
def entered (t : RpcTrace) : List (List (Option Delegation)) := t.filterMap enteredOf

/-- The delegations that they are given. -/
def handed (t : RpcTrace) : List (Option Delegation) := (entered t).flatten

/-- A program of the emulator, played over the Babylon client. -/
def playOver (lib : Lib) (bc : BabylonController) (ans : (c : RpcCall) → c.Answer) {α : Type}
    (p : Client α) : RpcTrace × Except Halt α :=
  (p.interp (babylonController lib bc)).play ans

/-- `AddCovenantSignatures` comes back from a batch, with or without an error. -/
def comesBack (lib : Lib) (bc : BabylonController) (ce : CovenantEmulator)
    (ans : (c : RpcCall) → c.Answer) (b : List (Option Delegation)) : Bool :=
  match (playOver lib bc ans (addCovenantSignatures lib ce b)).2 with
  | .ok _ => true
  | .error _ => false

section

variable {lib : Lib} {bc : BabylonController} {ce : CovenantEmulator}
  {ans : (c : RpcCall) → c.Answer} {α β : Type}

theorem entered_append (t u : RpcTrace) : entered (t ++ u) = entered t ++ entered u :=
  List.filterMap_append

theorem entered_bind (p : Client α) (f : α → Client β) :
    entered (playOver lib bc ans (p.bind f)).1 = entered (playOver lib bc ans p).1 ++
      match (playOver lib bc ans p).2 with
      | .ok a => entered (playOver lib bc ans (f a)).1
      | .error _ => [] := by
  unfold playOver
  rw [Prog.interp_bind, Prog.play_bind]
  cases ((p.interp (babylonController lib bc)).play ans).2 with
  | ok a => exact entered_append _ _
  | error x => exact (List.append_nil _).symm

theorem entered_bind_ret (p : Client α) (b : β) :
    entered (playOver lib bc ans (p.bind fun _ => .ret b)).1 = entered (playOver lib bc ans p).1 := by
  rw [entered_bind]
  cases (playOver lib bc ans p).2 <;> exact List.append_nil _

/-- Only the marker of the interface is a marker below. -/
theorem entered_of_other {c : ClientCall} {u : RpcTrace} {r : Rpc c.Answer}
    (h : Prog.Steps (babylonController lib bc c) u r)
    (hc : ∀ params btcDels, c ≠ .enter params btcDels) : entered u = [] := by
  apply List.filterMap_eq_nil_iff.mpr
  rintro ⟨c', a⟩ he
  have hissues := issues_of_mem h he
  cases c with
  | enter params btcDels => exact absurd rfl (hc params btcDels)
  | _ =>
    cases c' with
    | enter params btcDels => cases hissues
    | _ => rfl

theorem entered_call {c : ClientCall} (k : c.Answer → Client α)
    (hc : ∀ params btcDels, c ≠ .enter params btcDels) :
    entered (playOver lib bc ans (.call c k)).1 =
      match ((babylonController lib bc c).play ans).2 with
      | .ok a => entered (playOver lib bc ans (k a)).1
      | .error _ => [] := by
  have hnil := entered_of_other (Prog.steps_play ans (babylonController lib bc c)) hc
  show entered (((babylonController lib bc c).bind fun a => (k a).interp _).play ans).1 = _
  rw [Prog.play_bind]
  cases ((babylonController lib bc c).play ans).2 with
  | error x => exact hnil
  | ok a =>
    show entered (_ ++ _) = _
    rw [entered_append, hnil, List.nil_append]
    rfl

theorem entered_addCovenantSignatures (b : List (Option Delegation)) :
    entered (playOver lib bc ans (addCovenantSignatures lib ce b)).1 = [b] := by
  have hcons : ∀ p : Client (Except GoError (Option TxResponse)),
      entered (playOver lib bc ans p).1 = [] →
      entered (playOver lib bc ans (.call (.enter ce.params b) fun _ => p)).1 = [b] :=
    fun p hp => congrArg (List.cons b) hp
  simp only [addCovenantSignatures, Prog.bind_eq, Prog.ask, Prog.call_bind, Prog.ret_bind]
  rcases collectBatch lib ce b with (msg | err) | _ | l
  · exact hcons _ rfl
  · exact hcons _ rfl
  · exact hcons _ rfl
  · refine hcons _ ((entered_call (c := .submitCovenantSigs l) _ (by simp)).trans ?_)
    cases ((babylonController lib bc (.submitCovenantSigs l)).play ans).2 <;> rfl

/-- The batches are handed over up to the first one that does not come back. -/
theorem entered_submitBatches (batches : List (List (Option Delegation))) :
    entered (playOver lib bc ans (submitBatches lib ce batches)).1 =
      upTo (comesBack lib bc ce ans) batches := by
  induction batches with
  | nil => rfl
  | cons b bs ih =>
    have hback : comesBack lib bc ce ans b =
        match (playOver lib bc ans (addCovenantSignatures lib ce b)).2 with
        | .ok _ => true
        | .error _ => false := rfl
    apply (entered_bind (addCovenantSignatures lib ce b) fun _ => submitBatches lib ce bs).trans
    rw [entered_addCovenantSignatures, ih, upTo, hback]
    cases (playOver lib bc ans (addCovenantSignatures lib ce b)).2 <;> rfl

/-- What the work of a tick hands over. -/
theorem entered_processDelegations (dels : List (Option Delegation)) :
    entered (playOver lib bc ans (processDelegations lib ce dels)).1 =
      match workList lib ce dels with
      | .ok batches => upTo (comesBack lib bc ce ans) batches
      | .error _ => [] := by
  rw [processDelegations_eq]
  cases workList lib ce dels with
  | error x => rfl
  | ok batches => exact entered_submitBatches batches

/-! ## A tick over the Babylon client -/

theorem play_queryStakingParams {ckpt : BTCCheckpointParams} {staking : BTCStakingParams}
    {p : StakingParams} (hckpt : ans .btcCheckpointParams = .ok ckpt)
    (hstaking : ans .btcStakingParams = .ok staking)
    (hp : stakingParamsOf lib bc ckpt staking = .ok p) :
    ((babylonController lib bc .queryStakingParams).play ans).2 = .ok (.ok p) := by
  show ((queryStakingParams lib bc).play ans).2 = _
  simp only [queryStakingParams, Prog.bind_eq, Prog.ask, Prog.call_bind, Prog.ret_bind,
    Prog.play_call, hckpt, hstaking, hp]
  rfl

theorem play_queryPendingDelegations {limit : UInt64} {res : BTCDelegationsResponse}
    (hres : ans (.btcDelegations .pending ⟨none, limit⟩) = .ok res) :
    ((babylonController lib bc (.queryPendingDelegations limit)).play ans).2 =
      (convertAll lib res.btcDelegations).map .ok := by
  show ((queryDelegationsWithStatus lib .pending limit).play ans).2 = _
  simp only [queryDelegationsWithStatus, Prog.bind_eq, Prog.ask, Prog.call_bind, Prog.ret_bind,
    Prog.play_call, hres]
  cases convertAll lib res.btcDelegations <;> rfl

/-- A chain that answers the queries of a tick. As is assumed of it, the query without a
key returns the first of the pending delegations `P`, up to the limit. -/
structure Serves (lib : Lib) (bc : BabylonController) (ce : CovenantEmulator) (P : List BTCDelegation)
    (p : StakingParams) (ans : (c : RpcCall) → c.Answer) : Prop where
  params : ∃ ckpt staking, ans .btcCheckpointParams = .ok ckpt ∧
    ans .btcStakingParams = .ok staking ∧ stakingParamsOf lib bc ckpt staking = .ok p
  page : ∃ res, ans (.btcDelegations .pending ⟨none, ce.config.delegationLimit⟩) = .ok res ∧
    res.btcDelegations.elems = P.take ce.config.delegationLimit.toNat

/-- A chain that answers the queries out of one ledger serves its pending delegations. -/
theorem serves_of_responds {c : Ledger lib} {p : StakingParams} {res : BTCDelegationsResponse}
    {ckpt : BTCCheckpointParams} {staking : BTCStakingParams}
    (hlimit : 1 ≤ ce.config.delegationLimit)
    (hresponds : ∀ call, ∃ c', Responds c ⟨call, ans call⟩ c')
    (hckpt : ans .btcCheckpointParams = .ok ckpt) (hstaking : ans .btcStakingParams = .ok staking)
    (hres : ans (.btcDelegations .pending ⟨none, ce.config.delegationLimit⟩) = .ok res)
    (hp : stakingParamsOf lib bc c.ckptParams c.stakingParams = .ok p) :
    Serves lib bc ce c.pending p ans where
  params := by
    obtain ⟨_, _, hc⟩ := hresponds .btcCheckpointParams
    obtain ⟨_, _, hs⟩ := hresponds .btcStakingParams
    rw [← hc ckpt hckpt, ← hs staking hstaking] at hp
    exact ⟨ckpt, staking, hckpt, hstaking, hp⟩
  page := by
    obtain ⟨_, _, hpage⟩ := hresponds (.btcDelegations .pending ⟨none, ce.config.delegationLimit⟩)
    exact ⟨res, hres, (hpage res hres).1.trans (c.page_pending hlimit)⟩

/-- The batches that the page gives: none when it does not convert, or cannot be batched. -/
def pageBatches (lib : Lib) (ce : CovenantEmulator) (p : StakingParams) (P : List BTCDelegation) :
    Except Halt (List (List (Option Delegation))) := do
  let ds ← (P.take ce.config.delegationLimit.toNat).mapM (convertDelegationType lib)
  workList lib (withParams ce p) (ds.map some)

variable {P : List BTCDelegation} {p : StakingParams}

/-- **What a tick hands over.** -/
theorem entered_memberTick (h : Serves lib bc ce P p ans) :
    entered ((memberTick lib bc ce).play ans).1 =
      match pageBatches lib ce p P with
      | .ok batches => upTo (comesBack lib bc (withParams ce p) ans) batches
      | .error _ => [] := by
  obtain ⟨ckpt, staking, hckpt, hstaking, hpar⟩ := h.params
  obtain ⟨res, hres, helems⟩ := h.page
  obtain ⟨k, htick, hk⟩ := exists_tick_eq lib ce
  have hp : ((babylonController lib bc .queryStakingParams).play ans).2 = .ok (.ok p) :=
    play_queryStakingParams hckpt hstaking hpar
  show entered (playOver lib bc ans (tick lib ce)).1 = _
  rw [htick, entered_call (c := .queryStakingParams) _ nofun, hp]
  show entered (playOver lib bc ans (k (.ok p))).1 = _
  rw [hk, entered_call (c := .queryPendingDelegations _) _ nofun, play_queryPendingDelegations hres]
  unfold pageBatches
  rw [← helems]
  cases hds : res.btcDelegations.elems.mapM (convertDelegationType lib) with
  | error x =>
    cases hconv : convertAll lib res.btcDelegations with
    | error y => rfl
    | ok dels =>
      obtain ⟨ds, hok, _⟩ := convertAll_eq_ok hconv
      rw [hok] at hds
      cases hds
  | ok ds =>
    obtain ⟨hlen, hconv⟩ := convertAll_of_mapM hds
    rw [hconv]
    exact (entered_bind_ret _ _).trans (entered_processDelegations _)

/-! ## The first unsigned delegations -/

/-- The record does not list the member's key. -/
def Unsigned (ce : CovenantEmulator) (r : BTCDelegation) : Bool := decide (ce.pk.x ∉ signers r)

/-- What is handed over for a record. -/
def HandedAs (lib : Lib) (r : BTCDelegation) (o : Option Delegation) : Prop :=
  ∃ d, convertDelegationType lib r = .ok d ∧ o = some d

/-- A tick hands over the first pending delegations that the member has not signed, as
many as the limit allows. -/
def HandsFirstUnsigned (lib : Lib) (bc : BabylonController) (ce : CovenantEmulator)
    (P : List BTCDelegation) (ans : (c : RpcCall) → c.Answer) : Prop :=
  List.Forall₂ (HandedAs lib) ((P.filter (Unsigned ce)).take ce.config.delegationLimit.toNat)
    (handed ((memberTick lib bc ce).play ans).1)

theorem workList_ok {dels : List (Option Delegation)} {batches : List (List (Option Delegation))}
    (hlen : dels.length < 2 ^ 63) (h : workList lib ce dels = .ok batches) :
    (∀ x ∈ batches, x ≠ []) ∧ (ce.config.sigsBatchSize = 0 → batches = []) := by
  obtain ⟨sanitized, hs, hb⟩ := bind_eq_ok_iff.mp h
  have hle : sanitized.length < 2 ^ 63 := by
    obtain ⟨ds, rfl, rfl⟩ := (removeAlreadySigned_eq_ok_iff lib ce dels sanitized).mp hs
    rw [List.length_map] at hlen ⊢
    exact Nat.lt_of_le_of_lt (List.length_filter_le _ _) hlen
  by_cases hzero : ce.config.sigsBatchSize = 0
  · -- a batch size of zero only comes to an end on nothing
    have hnil : sanitized = [] := by
      by_contra hne
      unfold delegationsToBatches at hb
      rw [hzero, batchesFrom_zero hne hle] at hb
      cases hb
    rw [hnil] at hb
    cases hb
    exact ⟨by simp, fun _ => rfl⟩
  · obtain ⟨batches', hb', _, hchunk⟩ := delegationsToBatches_spec ce hle hzero
    obtain rfl := Except.ok.inj (hb'.symm.trans hb)
    exact ⟨fun x hx => (hchunk.bounds (toNat_pos hzero) x hx).1, fun h => absurd h hzero⟩

/-- Delegations can be batched when there is a batch size. -/
theorem exists_workList {ds : List Delegation} (hlen : ds.length < 2 ^ 63)
    (hb : ce.config.sigsBatchSize ≠ 0) : ∃ batches, workList lib ce (ds.map some) = .ok batches := by
  obtain ⟨_, batches, hs, hok, _, _⟩ := workList_spec lib ce hlen hb
  exact ⟨batches, bind_eq_ok_iff.mpr ⟨_, hs, hok⟩⟩

theorem unsigned_eq (henc : lib.KeyEncoding) {r : BTCDelegation} {d : Delegation}
    (hd : convertDelegationType lib r = .ok d) :
    Unsigned ce r = !alreadySigned lib (withParams ce p) d := by
  have hiff : alreadySigned lib (withParams ce p) d = true ↔ ce.pk.x ∈ signers r :=
    alreadySigned_iff henc (convertDelegationType_eq_ok_iff.mp hd)
  unfold Unsigned
  cases hs : alreadySigned lib (withParams ce p) d with
  | false =>
    rw [hs] at hiff
    simpa using hiff
  | true =>
    rw [hs] at hiff
    simpa using hiff

/-- The batches of the page hold what is unsigned on it, and none is empty. -/
theorem pageBatches_ok (henc : lib.KeyEncoding)
    (hlen : (P.take ce.config.delegationLimit.toNat).length < 2 ^ 63)
    {batches : List (List (Option Delegation))} (h : pageBatches lib ce p P = .ok batches) :
    List.Forall₂ (HandedAs lib) ((P.take ce.config.delegationLimit.toNat).filter (Unsigned ce))
        batches.flatten ∧
      (∀ x ∈ batches, x ≠ []) ∧ (ce.config.sigsBatchSize = 0 → batches = []) ∧
      ∀ r ∈ P.take ce.config.delegationLimit.toNat, ∃ d, convertDelegationType lib r = .ok d := by
  obtain ⟨ds, hds, hw⟩ := bind_eq_ok_iff.mp h
  have hds := mapM_eq_ok_iff.mp hds
  have hlen' : (ds.map some).length < 2 ^ 63 := by
    rw [List.length_map, ← hds.length_eq]
    exact hlen
  obtain ⟨hne, hzero⟩ := workList_ok hlen' hw
  obtain ⟨ds', heq, hflat⟩ := workList_flatten hlen' hw
  obtain rfl : ds = ds' := List.map_injective_iff.mpr (fun _ _ h => Option.some.inj h) heq
  refine ⟨?_, hne, hzero, ?_⟩
  · rw [hflat, List.forall₂_map_right_iff]
    apply (forall₂_filter (fun r d hd => unsigned_eq henc hd) hds).imp
    intro r d hd
    exact ⟨d, hd, rfl⟩
  · intro r hr
    obtain ⟨d, _, hd⟩ := exists_right_of_mem hds hr
    exact ⟨d, hd⟩

/-- The page is worked off as a whole: it can be batched, it converts, and no batch but
the last keeps `AddCovenantSignatures` from coming back. -/
structure WorksOff (lib : Lib) (bc : BabylonController) (ce : CovenantEmulator)
    (P : List BTCDelegation) (p : StakingParams) (ans : (c : RpcCall) → c.Answer) : Prop where
  batched : ce.config.sigsBatchSize ≠ 0
  converts : ∀ r ∈ P.take ce.config.delegationLimit.toNat, ∃ d, convertDelegationType lib r = .ok d
  comes_back : ∀ batches, pageBatches lib ce p P = .ok batches →
    ∀ x ∈ batches.dropLast, comesBack lib bc (withParams ce p) ans x = true

theorem Serves.page_length (h : Serves lib bc ce P p ans) :
    (P.take ce.config.delegationLimit.toNat).length < 2 ^ 63 := by
  obtain ⟨res, _, helems⟩ := h.page
  rw [← helems]
  exact res.btcDelegations.len_lt

theorem handed_eq (h : Serves lib bc ce P p ans) {batches : List (List (Option Delegation))}
    (hb : pageBatches lib ce p P = .ok batches) :
    handed ((memberTick lib bc ce).play ans).1 =
      (upTo (comesBack lib bc (withParams ce p) ans) batches).flatten := by
  unfold handed
  rw [entered_memberTick h, hb]

/-- What is handed over comes from the page. -/
theorem handed_length_le (henc : lib.KeyEncoding) (h : Serves lib bc ce P p ans) :
    (handed ((memberTick lib bc ce).play ans).1).length ≤
      ((P.take ce.config.delegationLimit.toNat).filter (Unsigned ce)).length := by
  cases hb : pageBatches lib ce p P with
  | error x =>
    unfold handed
    rw [entered_memberTick h, hb]
    exact Nat.zero_le _
  | ok batches =>
    obtain ⟨hflat, _⟩ := pageBatches_ok henc h.page_length hb
    obtain ⟨rest, hrest⟩ := flatten_upTo (comesBack lib bc (withParams ce p) ans) batches
    rw [handed_eq h hb, hflat.length_eq, hrest, List.length_append]
    exact Nat.le_add_right _ _

/-- A page that is worked off is handed over. -/
theorem handed_of_worksOff (henc : lib.KeyEncoding) (h : Serves lib bc ce P p ans)
    (hw : WorksOff lib bc ce P p ans) :
    List.Forall₂ (HandedAs lib) ((P.take ce.config.delegationLimit.toNat).filter (Unsigned ce))
      (handed ((memberTick lib bc ce).play ans).1) := by
  obtain ⟨ds, hds⟩ := exists_forall₂ hw.converts
  have hlen : ds.length < 2 ^ 63 := by
    rw [← hds.length_eq]
    exact h.page_length
  obtain ⟨batches, hbatches⟩ : ∃ batches, workList lib (withParams ce p) (ds.map some) = .ok batches :=
    exists_workList hlen hw.batched
  have hb : pageBatches lib ce p P = .ok batches :=
    bind_eq_ok_iff.mpr ⟨ds, mapM_eq_ok_iff.mpr hds, hbatches⟩
  obtain ⟨hflat, hne, _⟩ := pageBatches_ok henc h.page_length hb
  rw [handed_eq h hb, (flatten_upTo_iff hne).mpr (hw.comes_back batches hb)]
  exact hflat

/-- A page of which everything unsigned is handed over was worked off. -/
theorem worksOff_of_handed (henc : lib.KeyEncoding) (h : Serves lib bc ce P p ans)
    (hne : handed ((memberTick lib bc ce).play ans).1 ≠ [])
    (hall : (handed ((memberTick lib bc ce).play ans).1).length =
      ((P.take ce.config.delegationLimit.toNat).filter (Unsigned ce)).length) :
    WorksOff lib bc ce P p ans := by
  cases hb : pageBatches lib ce p P with
  | error x =>
    unfold handed at hne
    rw [entered_memberTick h, hb] at hne
    exact absurd rfl hne
  | ok batches =>
    obtain ⟨hflat, hbs, hzero, hconv⟩ := pageBatches_ok henc h.page_length hb
    rw [handed_eq h hb] at hne hall
    refine ⟨?_, hconv, ?_⟩
    · intro h0
      rw [hzero h0] at hne
      exact hne rfl
    · intro batches' hb'
      obtain rfl := Except.ok.inj (hb.symm.trans hb')
      apply (flatten_upTo_iff hbs).mp
      obtain ⟨rest, hrest⟩ := flatten_upTo (comesBack lib bc (withParams ce p) ans) batches
      have hnil : rest = [] := by
        rw [hflat.length_eq, hrest, List.length_append] at hall
        exact List.length_eq_zero_iff.mp (by omega)
      rw [hrest, hnil, List.append_nil]

theorem take_unsigned_eq_nil_iff (ce : CovenantEmulator) {n : Nat} (hn : 0 < n)
    (P : List BTCDelegation) :
    (P.filter (Unsigned ce)).take n = [] ↔ ∀ r ∈ P, ce.pk.x ∈ signers r := by
  rw [List.take_eq_nil_iff, List.filter_eq_nil_iff]
  constructor
  · rintro (h0 | hall)
    · omega
    · intro r hr
      simpa [Unsigned] using hall r hr
  · intro hall
    right
    intro r hr
    simpa [Unsigned] using hall r hr

/-- Nothing unsigned is left behind the page while there is room for it. -/
theorem length_page_iff (ce : CovenantEmulator) (n : Nat) (P : List BTCDelegation) :
    ((P.filter (Unsigned ce)).take n).length = ((P.take n).filter (Unsigned ce)).length ↔
      (∀ r ∈ P.take n, ce.pk.x ∉ signers r) ∨ ∀ r ∈ P.drop n, ce.pk.x ∈ signers r := by
  rw [length_filter_take_iff]
  simp only [Unsigned, decide_eq_true_eq, decide_eq_false_iff_not, not_not]

/-- **First unsigned delegations.** -/
theorem hands_first_unsigned_iff (lib : Lib) (henc : lib.KeyEncoding) (bc : BabylonController)
    (ce : CovenantEmulator) (hlimit : 1 ≤ ce.config.delegationLimit) (P : List BTCDelegation)
    (p : StakingParams) (ans : (c : RpcCall) → c.Answer) (h : Serves lib bc ce P p ans) :
    HandsFirstUnsigned lib bc ce P ans ↔
      (∀ r ∈ P, ce.pk.x ∈ signers r) ∨
        ((∀ r ∈ P.take ce.config.delegationLimit.toNat, ce.pk.x ∉ signers r) ∨
          ∀ r ∈ P.drop ce.config.delegationLimit.toNat, ce.pk.x ∈ signers r) ∧
        WorksOff lib bc ce P p ans := by
  have hn : 0 < ce.config.delegationLimit.toNat := hlimit
  have hle := handed_length_le henc h
  have hpage : ((P.take ce.config.delegationLimit.toNat).filter (Unsigned ce)).length ≤
      ((P.filter (Unsigned ce)).take ce.config.delegationLimit.toNat).length := by
    rw [take_filter, List.length_append]
    exact Nat.le_add_right _ _
  unfold HandsFirstUnsigned
  constructor
  · intro hfirst
    by_cases hall : ∀ r ∈ P, ce.pk.x ∈ signers r
    · exact Or.inl hall
    · -- something is handed over, and all three lists are of one length
      have hlen := hfirst.length_eq
      have hne : handed ((memberTick lib bc ce).play ans).1 ≠ [] := by
        intro hnil
        rw [hnil, List.forall₂_nil_right_iff] at hfirst
        exact hall ((take_unsigned_eq_nil_iff ce hn P).mp hfirst)
      exact Or.inr ⟨(length_page_iff ce _ P).mp (by omega), worksOff_of_handed henc h hne (by omega)⟩
  · rintro (hall | ⟨hor, hw⟩)
    · have hnil := (take_unsigned_eq_nil_iff ce hn P).mpr hall
      rw [hnil] at hpage ⊢
      have hhanded : handed ((memberTick lib bc ce).play ans).1 = [] :=
        List.length_eq_zero_iff.mp (Nat.le_zero.mp (Nat.le_trans hle hpage))
      rw [hhanded]
      exact .nil
    · rw [take_filter_eq_of_length ((length_page_iff ce _ P).mpr hor)]
      exact handed_of_worksOff henc h hw

end

/-! ### A page of one -/

/-- A delegation of staker 6, which the member with key 1 has signed and nobody else. -/
def signedRecord : BTCDelegation :=
  let stakingHash : Hash := ⟨
      [29, 40, 95, 201, 28, 78, 112, 201, 108, 219, 202, 193, 223, 12, 115, 11,
        58, 210, 98, 172, 13, 75, 166, 167, 90, 233, 134, 152, 58, 217, 221, 167], rfl⟩
  let unbondingHash : Hash := ⟨
      [225, 84, 52, 88, 247, 254, 134, 229, 20, 186, 130, 148, 55, 157, 27, 141,
        245, 9, 40, 82, 27, 147, 135, 178, 92, 134, 139, 155, 2, 133, 254, 29], rfl⟩
  let change := taproot [timeLockLeaf (key 6) 101]
  { btcPk := (key 6).x
    fpBtcPkList := [(key 8).x]
    startHeight := 90
    endHeight := 95
    totalSat := 100000000
    stakingTx := some (serialize (spend ⟨List.replicate 32 0x22, rfl⟩ [⟨100000000,
      taproot [timeLockLeaf (key 6) 5, unbondingLeaf (key 6) covenantPks 2,
        slashingLeaf (key 6) [key 8] covenantPks 2]⟩]))
    stakingOutputIdx := 0
    slashingTx := some ⟨serialize (spend stakingHash [⟨10000000, payTo slashingAddress⟩,
      ⟨89999000, change⟩])⟩
    covenantSigs := [⟨(key 1).x, [[1]]⟩]
    unbondingTime := 101
    btcUndelegation := some {
      unbondingTx := some (serialize (spend stakingHash [⟨99999000,
        taproot [timeLockLeaf (key 6) 101, slashingLeaf (key 6) [key 8] covenantPks 2]⟩]))
      slashingTx := some ⟨serialize (spend unbondingHash [⟨9999900, payTo slashingAddress⟩,
        ⟨89998100, change⟩])⟩
      delegatorUnbondingSig := none
      covenantSlashingSigs := [⟨(key 1).x, [[2]]⟩]
      covenantUnbondingSigList := [⟨(key 1).x, [3]⟩] } }

/-- The signed delegation comes first in the order of the keys. -/
def pendingRecords : List BTCDelegation := [signedRecord, sampleRecord]

def memberWith (limit : UInt64) : CovenantEmulator :=
  { startWith (key 1) with config := { (startWith (key 1)).config with delegationLimit := limit } }

def servingAnswers : (c : RpcCall) → c.Answer
  | .btcCheckpointParams => .ok (sampleLedger 2 []).ckptParams
  | .btcStakingParams => .ok (sampleLedger 2 []).stakingParams
  | .btcDelegations _ pagination => .ok ⟨⟨pendingRecords.take pagination.limit.toNat, by
      apply Nat.lt_of_le_of_lt (List.length_take_le' _ _)
      decide⟩, none⟩
  | .reliablySendMsgs _ => .error "timeout"
  | .enter _ _ => ()

theorem serves_sample (limit : UInt64) :
    Serves sampleLib sampleController (memberWith limit) pendingRecords (paramsWith 2)
      servingAnswers where
  params := ⟨_, _, rfl, rfl, rfl⟩
  page := ⟨_, rfl, rfl⟩

/-- With room for both on the page there is one batch, of the unsigned delegation. -/
theorem worksOff_two :
    WorksOff sampleLib sampleController (memberWith 2) pendingRecords (paramsWith 2)
      servingAnswers := by
  refine ⟨by decide, ?_, ?_⟩
  · intro r hr
    have hmem := List.mem_of_mem_take hr
    simp only [pendingRecords, List.mem_cons, List.not_mem_nil, or_false] at hmem
    rcases hmem with rfl | rfl
    · exact ⟨_, rfl⟩
    · exact ⟨_, convertDelegationType_eq_ok_iff.mpr converts_sampleRecord⟩
  · intro batches hb
    obtain ⟨hflat, hne, _⟩ := pageBatches_ok sampleLib_keyEncoding (serves_sample 2).page_length hb
    have hlen : batches.flatten.length = 1 := hflat.length_eq.symm.trans (by decide)
    rcases batches with _ | ⟨x, _ | ⟨y, rest⟩⟩
    · exact nofun
    · exact nofun
    · have hx := List.length_pos_of_ne_nil (hne x (by simp))
      have hy := List.length_pos_of_ne_nil (hne y (by simp))
      simp only [List.flatten_cons, List.length_append] at hlen
      omega

/-- With a limit of two the unsigned delegation is handed over. -/
theorem hands_first_unsigned_two :
    HandsFirstUnsigned sampleLib sampleController (memberWith 2) pendingRecords servingAnswers := by
  have hiff := hands_first_unsigned_iff sampleLib sampleLib_keyEncoding sampleController
    (memberWith 2) (by decide) pendingRecords (paramsWith 2) servingAnswers (serves_sample 2)
  exact hiff.mpr (Or.inr ⟨Or.inr nofun, worksOff_two⟩)

/-- With a limit of one the signed delegation fills the page, and the tick has no work. -/
theorem signed_delegation_hides_unsigned :
    handed ((memberTick sampleLib sampleController (memberWith 1)).play servingAnswers).1 = [] ∧
      ¬ HandsFirstUnsigned sampleLib sampleController (memberWith 1) pendingRecords servingAnswers := by
  have hle := handed_length_le sampleLib_keyEncoding (serves_sample 1)
  have hpage : ((pendingRecords.take (memberWith 1).config.delegationLimit.toNat).filter
      (Unsigned (memberWith 1))).length = 0 := by decide
  have hnil : handed ((memberTick sampleLib sampleController (memberWith 1)).play
      servingAnswers).1 = [] :=
    List.length_eq_zero_iff.mp (Nat.le_zero.mp (hpage ▸ hle))
  refine ⟨hnil, ?_⟩
  unfold HandsFirstUnsigned
  rw [hnil, List.forall₂_nil_right_iff, take_unsigned_eq_nil_iff _ (by decide)]
  intro hall
  have hsigned : (key 1).x ∈ signers sampleRecord := hall _ (List.mem_cons_of_mem _ List.mem_cons_self)
  cases hsigned

end Covenant.Paging
