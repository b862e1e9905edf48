import Tenderize.Refinement.Accounts
import Tenderize.Model.Rules

/-!
# When the handlers get through

The accounts of a pool that is represented load and can be written, so a handler only
stops at the conditions it checks and at the programs it calls.
-/

namespace Tenderize

open Support

theorem ValidatorStakeList.serialize_ok {list : ValidatorStakeList} {output : AccountData}
    (hlen : ValidatorStakeList.LEN ≤ output.len)
    (hcount : list.validators.length ≤ maxValidators) :
    list.serialize output = .ok (.validatorStakeList output.len list) := by
  unfold ValidatorStakeList.serialize
  rw [if_neg (Nat.not_lt.mpr hlen), if_neg (Nat.not_lt.mpr hcount)]

theorem CreditList.serialize_ok {list : CreditList} {output : AccountData}
    (hlen : CreditList.LEN ≤ output.len) (hcount : list.credits.length ≤ maxCreditRecords) :
    list.serialize output = .ok (.creditList output.len list) := by
  unfold CreditList.serialize
  rw [if_neg (Nat.not_lt.mpr hlen), if_neg (Nat.not_lt.mpr hcount)]

namespace Deployment.Represents

variable {D : Deployment} {L : Ledger} {s : PoolState} (h : D.Represents L s)

include h

theorem loadStakePool_ok {info : AccountInfo} (hkey : info.key = D.poolKey) :
    loadStakePool D.programs D.programId L info = .ok s.pool := by
  obtain ⟨howner, len, hlen, hdata⟩ := h.has_pool
  rw [loadStakePool_eq_ok, hkey, hdata]
  refine ⟨howner, ?_, h.wired.pool_initialized⟩
  unfold StakePool.deserialize
  exact if_neg (Nat.not_lt.mpr hlen)

theorem loadValidatorStakeList_ok {info : AccountInfo}
    (hkey : info.key = s.pool.validatorStakeList)
    (hcount : s.list.validators.length ≤ maxValidators) :
    loadValidatorStakeList D.programs L s.pool info = .ok s.list := by
  obtain ⟨-, hlen, len, hdata⟩ := h.has_list
  rw [loadValidatorStakeList_eq_ok, hkey]
  refine ⟨rfl, ?_, ?_⟩
  · unfold ValidatorStakeList.deserialize
    rw [if_neg (Nat.not_lt.mpr hlen), hdata]
    simp only [h.wired.list_initialized, if_false]
    rw [if_neg (Nat.not_lt.mpr hcount)]
  · unfold ValidatorStakeList.isInitialized
    exact decide_eq_true (UInt8.pos_iff_ne_zero.mpr h.wired.list_initialized)

theorem loadCreditList_ok {info : AccountInfo} (hkey : info.key = s.pool.creditList)
    (hcount : s.creditList.credits.length ≤ maxCreditRecords) :
    loadCreditList D.programs L s.pool info = .ok s.creditList := by
  obtain ⟨-, hlen, len, hdata⟩ := h.has_credits
  rw [loadCreditList_eq_ok, hkey]
  refine ⟨rfl, ?_, ?_⟩
  · unfold CreditList.deserialize
    rw [if_neg (Nat.not_lt.mpr hlen), hdata]
    simp only [h.wired.credits_initialized, if_false]
    rw [if_neg (Nat.not_lt.mpr hcount)]
  · unfold CreditList.isInitialized
    exact decide_eq_true (UInt8.pos_iff_ne_zero.mpr h.wired.credits_initialized)

theorem store_list_ok (list : ValidatorStakeList)
    (hcount : list.validators.length ≤ maxValidators) :
    ∃ L', store D.programId s.pool.validatorStakeList (ValidatorStakeList.serialize list) L =
      .ok L' := by
  obtain ⟨howner, hlen, -⟩ := h.has_list
  exact ⟨_, store_eq_ok.mpr
    ⟨_, ValidatorStakeList.serialize_ok hlen hcount, .inl howner, rfl⟩⟩

theorem store_credits_ok (list : CreditList) (hcount : list.credits.length ≤ maxCreditRecords) :
    ∃ L', store D.programId s.pool.creditList (CreditList.serialize list) L = .ok L' := by
  obtain ⟨howner, hlen, -⟩ := h.has_credits
  exact ⟨_, store_eq_ok.mpr ⟨_, CreditList.serialize_ok hlen hcount, .inl howner, rfl⟩⟩

theorem store_pool_ok (pool : StakePool) :
    ∃ L', store D.programId D.poolKey (StakePool.serialize pool) L = .ok L' := by
  obtain ⟨howner, len, hlen, hdata⟩ := h.has_pool
  have hwrite : StakePool.serialize pool (L D.poolKey).data = .ok (.stakePool len pool) := by
    rw [hdata]
    unfold StakePool.serialize
    exact if_neg (Nat.not_lt.mpr hlen)
  exact ⟨_, store_eq_ok.mpr ⟨_, hwrite, .inl howner, rfl⟩⟩

/-- The withdraw authority signs whatever the program signs for it. -/
theorem withdrawKey_signs (infos : List AccountInfo) :
    D.withdrawKey ∈ D.programs.signersWith D.programId infos
      [authoritySeeds D.poolKey .withdraw s.pool.withdrawBumpSeed] := by
  apply List.mem_append_right
  rw [List.mem_filterMap]
  exact ⟨_, List.mem_singleton_self _, h.wired.withdraw_bump⟩

end Deployment.Represents

end Tenderize
