import Covenant.Chain
import Covenant.Cursor

/-! `QueryFinalityProviders`: pages of a hundred are read until no next key is named, while
finality providers are registered and edited. What the loop returns lists every provider
that was registered when it began, none twice, in the order of the chain, and it asks for
another page only where the chain has more providers than the pages so far
(`finality_providers_listed`). -/

namespace Covenant.FinalityProviders
open Outcome Interaction Reactor Bitcoin Covenant.Types Controller Chain Cursor

variable {F : Type}

structure PageResponse where
  nextKey : Option Bytes
  deriving DecidableEq, Repr

structure QueryFinalityProvidersResponse (F : Type) where
  finalityProviders : List F
  pagination : Option PageResponse

/-- `FinalityProviders` of the query client. -/
def queryClient (F : Type) : Interface where
  Call := PageRequest
  Answer _ := Except GoError (QueryFinalityProvidersResponse F)

/-- The loop, with what it has gathered. A loop still running after `fuel` pages counts as
one that never ends. -/
def queryPages : Nat → PageRequest → List F → Prog (queryClient F) Halt (Except GoError (List F))
  | 0, _, _ => .halt .diverge
  | fuel + 1, pagination, fps => do
    match ← Prog.ask (I := queryClient F) pagination with
    | .error err => return .error s!"failed to query finality providers: {err}"
    | .ok res =>
      let fps := fps ++ res.finalityProviders
      match res.pagination with
      | none => return .ok fps
      | some ⟨none⟩ => return .ok fps
      | some ⟨some nextKey⟩ => queryPages fuel { pagination with key := some nextKey } fps

def queryFinalityProviders (fuel : Nat) : Prog (queryClient F) Halt (Except GoError (List F)) :=
  queryPages fuel ⟨none, 100⟩ []

/-! ## The store -/

variable {key : F → Bytes}

def keys (c : Registry key) : List Bytes := c.entries.map key

inductive Evolves : Registry key → Registry key → Prop
  | create (c : Registry key) (i : Nat) (x : F) (hx : key x ∉ c.entries.map key) :
      Evolves c (c.insert i x hx)
  | edit (c : Registry key) (f : F → F) (hf : ∀ x, key (f x) = key x) : Evolves c (c.update f hf)

/-- The providers from the key of the request on. -/
def listed (c : Registry key) : Option Bytes → List F
  | none => c.entries
  | some k => c.entries.dropWhile fun x => key x ≠ k

/-- A query fails, for one because the deadline of the whole loop has passed, or reads the
store as it stands. -/
def Responds (c : Registry key) (e : Event (queryClient F)) (c' : Registry key) : Prop :=
  c' = c ∧ ∀ res, e.answer = .ok res →
    res.finalityProviders = (listed c (PageRequest.key e.call)).take (pageSize e.call) ∧
      res.pagination = some ⟨(listed c (PageRequest.key e.call))[pageSize e.call]?.map key⟩

def store (key : F → Bytes) : Environment Unit (queryClient F) where
  State := Registry key
  evolve := Evolves
  respond _ := Responds

theorem map_key_listed (c : Registry key) (cursor : Option Bytes) :
    (listed c cursor).map key = rest cursor (keys c) := by
  cases cursor with
  | none => rfl
  | some k =>
    show (c.entries.dropWhile _).map key = (c.entries.map key).dropWhile _
    rw [List.dropWhile_map]
    rfl

theorem keys_of_evolves {c c' : Registry key} (h : Evolves c c') : (keys c).Sublist (keys c') := by
  cases h with
  | create i x hx =>
    refine List.Sublist.map key ?_
    have hsub : (c.entries.take i ++ c.entries.drop i).Sublist
        (c.entries.take i ++ x :: c.entries.drop i) :=
      (List.Sublist.refl _).append (List.sublist_cons_self _ _)
    rwa [List.take_append_drop] at hsub
  | edit f hf =>
    have hmap : keys (c.update f hf) = keys c := by
      unfold keys
      exact (List.map_map ..).trans (List.map_congr_left fun x _ => hf x)
    rw [hmap]

theorem keys_of_interleaves {c c' : Registry key} {t : Trace (queryClient F)}
    (h : System.Interleaves (store key) () c t c') : (keys c).Sublist (keys c') := by
  refine h.invariant (P := fun _ e => (keys c).Sublist (keys e)) ?_ ?_ (d := []) (List.Sublist.refl _)
  · intro _ _ _ hP he
    exact hP.trans (keys_of_evolves he)
  · intro _ _ _ _ hP he
    rw [he.1]
    exact hP

/-! ## The loop -/

/-- What the loop comes to when it began with the keys `first` and its pages hold up to `n`
providers, on a chain that is `c` in the end. -/
structure Comes (first : List Bytes) (c : Registry key) (n : Nat) (t : Trace (queryClient F))
    (q : Prog (queryClient F) Halt (Except GoError (List F))) : Prop where
  listed : ∀ fps, q = .ret (.ok fps) →
    (fps.map key).Sublist (keys c) ∧ ∀ k ∈ first, k ∈ fps.map key
  failed : ∀ err, q = .ret (.error err) → ∃ u pagination cause,
    t = u ++ [⟨pagination, .error cause⟩] ∧ err = s!"failed to query finality providers: {cause}"
  ends : ∀ x, q = .halt x → n = 0 ∨ n < (keys c).length

theorem Comes.cons {first : List Bytes} {c : Registry key} {n : Nat} {t : Trace (queryClient F)}
    {q : Prog (queryClient F) Halt (Except GoError (List F))} (h : Comes first c n t q)
    (e : Event (queryClient F)) : Comes first c n (e :: t) q where
  listed := h.listed
  failed err hq := by
    obtain ⟨u, pagination, cause, rfl, herr⟩ := h.failed err hq
    exact ⟨e :: u, pagination, cause, rfl, herr⟩
  ends := h.ends

/-- The page that is read where the reader stands. -/
theorem page_of_standing {first read before after : List Bytes} {cursor : Option Bytes}
    {c : Registry key} {res : QueryFinalityProvidersResponse F}
    (hst : Standing first read cursor before after) (hkeys : keys c = before ++ after)
    (hres : res.finalityProviders = (listed c cursor).take 100 ∧
      res.pagination = some ⟨(listed c cursor)[100]?.map key⟩) :
    res.finalityProviders.map key = after.take 100 ∧ res.pagination = some ⟨after[100]?⟩ := by
  have hd : (before ++ after).Nodup := hkeys ▸ c.distinct
  have hafter : (listed c cursor).map key = after := by
    rw [map_key_listed, hkeys, hst.rest_eq hd]
  rw [hres.1, hres.2, List.map_take, ← List.getElem?_map, hafter]
  exact ⟨rfl, rfl⟩

theorem comes_queryPages {first before after : List Bytes} {cursor : Option Bytes} {fps : List F}
    {c c' : Registry key} {t : Trace (queryClient F)} (fuel : Nat)
    {q : Prog (queryClient F) Halt (Except GoError (List F))}
    (hst : Standing first (fps.map key) cursor before after) (hkeys : keys c = before ++ after)
    (hi : System.Interleaves (store key) () c t c')
    (hs : Prog.Steps (queryPages fuel ⟨cursor, 100⟩ fps) t q) :
    Comes first c' (fps.length + 100 * fuel) t q := by
  induction fuel generalizing before after cursor fps c t with
  | zero =>
    obtain ⟨rfl, rfl⟩ := Prog.steps_halt hs
    refine ⟨nofun, nofun, ?_⟩
    intro x _
    have hread := hst.read_sublist.length_le
    have hgrows := (keys_of_interleaves hi).length_le
    rw [List.length_map] at hread
    rw [hkeys, List.length_append] at hgrows
    -- a reader with a cursor has a key to go on with
    rcases hst.cursor_eq with ⟨_, rfl⟩ | ⟨k, _, hk⟩
    · rw [List.length_nil] at hread
      omega
    · have hafter : 0 < after.length := List.length_pos_of_mem (List.mem_of_mem_head? hk)
      omega
  | succ fuel ih =>
    rcases Prog.steps_call hs with ⟨rfl, rfl⟩ | ⟨a, u, rfl, hu⟩
    · exact ⟨nofun, nofun, nofun⟩
    · obtain ⟨_, c₁, hmoves, ⟨rfl, hres⟩, hrest⟩ := System.Interleaves.event (t := []) hi
      cases a with
      | error err =>
        obtain ⟨rfl, rfl⟩ := Prog.steps_ret hu
        refine ⟨nofun, ?_, nofun⟩
        intro cause herr
        cases herr
        exact ⟨[], _, err, rfl, rfl⟩
      | ok res =>
        obtain ⟨before', after', hkeys₁, hst₁⟩ := hst.grow (hkeys ▸ keys_of_interleaves hmoves)
        obtain ⟨hpage, hnext⟩ := page_of_standing hst₁ hkeys₁ (hres res rfl)
        obtain ⟨page, pagination⟩ := res
        subst hnext
        have hread : (fps ++ page).map key = fps.map key ++ after'.take 100 := by
          rw [List.map_append, hpage]
        cases hk : after'[100]? with
        | none =>
          rw [hk] at hu
          obtain ⟨rfl, rfl⟩ := Prog.steps_ret hu
          refine ⟨?_, nofun, nofun⟩
          intro fps' heq
          cases heq
          obtain ⟨hsub, hall⟩ := hst₁.last hk
          rw [hread]
          rw [← hkeys₁] at hsub
          exact ⟨hsub.trans (keys_of_interleaves hrest), hall⟩
        | some k =>
          rw [hk] at hu
          have hst₂ := hst₁.next hk
          rw [← hread] at hst₂
          have hkeys₂ : keys c₁ = (before' ++ after'.take 100) ++ after'.drop 100 := by
            rw [List.append_assoc, List.take_append_drop, hkeys₁]
          have hcomes := ih hst₂ hkeys₂ hrest hu
          have hlen : (fps ++ page).length = fps.length + 100 := by
            have hlt := (List.getElem?_eq_some_iff.mp hk).1
            have hcount : (page.map key).length = (after'.take 100).length := congrArg List.length hpage
            rw [List.length_map, List.length_take] at hcount
            rw [List.length_append]
            omega
          rw [hlen, Nat.add_assoc, Nat.add_comm 100, ← Nat.mul_succ] at hcomes
          exact hcomes.cons _

/-- **The list of finality providers.** What the pages bring together while providers are being
registered, and how many pages it takes. -/
theorem finality_providers_listed (key : F → Bytes) (fuel : Nat) (c c' : Registry key)
    (t : Trace (queryClient F)) (hi : System.Interleaves (store key) () c t c')
    (q : Prog (queryClient F) Halt (Except GoError (List F)))
    (hs : Prog.Steps (queryFinalityProviders fuel) t q) : Comes (keys c) c' (100 * fuel) t q := by
  have h := comes_queryPages fuel (Standing.start (keys c)) rfl hi hs
  rwa [List.length_nil, Nat.zero_add] at h

/-! ### A provider that is registered between two pages -/

def provider (n : Nat) : Bytes := [UInt8.ofNat n]

/-- Providers 0 to 149, without number 120. -/
def sampleStore : Registry (fun k : Bytes => k) where
  entries := ((List.range 150).map provider).eraseIdx 120
  distinct := by decide +kernel

def grownStore : Registry (fun k : Bytes => k) := sampleStore.insert 120 (provider 120) (by decide +kernel)

def firstPage : List Bytes := (List.range 100).map provider

def secondPage : List Bytes := (List.range' 100 50).map provider

def sampleQuery : Trace (queryClient Bytes) :=
  [⟨⟨none, 100⟩, .ok ⟨firstPage, some ⟨some (provider 100)⟩⟩⟩,
    ⟨⟨some (provider 100), 100⟩, .ok ⟨secondPage, some ⟨none⟩⟩⟩]

theorem interleaves_sampleQuery :
    System.Interleaves (store fun k : Bytes => k) () sampleStore sampleQuery grownStore := by
  have hfirst : firstPage = (listed sampleStore none).take 100 ∧
      some ⟨some (provider 100)⟩ = some (PageResponse.mk ((listed sampleStore none)[100]?.map fun k => k)) := by
    decide +kernel
  have hsecond : secondPage = (listed grownStore (some (provider 100))).take 100 ∧
      some ⟨none⟩ = some (PageResponse.mk
        ((listed grownStore (some (provider 100)))[100]?.map fun k => k)) := by
    decide +kernel
  refine .answer ⟨rfl, ?_⟩ (.move (.create sampleStore 120 (provider 120) (by decide +kernel))
    (.answer ⟨rfl, ?_⟩ (.nil _)))
  · intro res h
    cases h
    exact hfirst
  · intro res h
    cases h
    exact hsecond

theorem finality_providers_listed_sample :
    Comes (keys sampleStore) grownStore 200 sampleQuery (.ret (.ok (firstPage ++ secondPage))) :=
  finality_providers_listed _ 2 sampleStore grownStore sampleQuery interleaves_sampleQuery _
    (.call (I := queryClient Bytes) (c := ⟨none, 100⟩) _
      (.call (I := queryClient Bytes) (c := ⟨some (provider 100), 100⟩) _ (.refl _)))

end Covenant.FinalityProviders
