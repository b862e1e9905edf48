import Tenderize.Model.Derivation
import Tenderize.Spec.Held
import Tenderize.Refinement.Owners
import Tenderize.Reference.Pool

/-!
# Addresses of different roles

The byte strings behind the program's addresses determine what the addresses are for, so two
roles can only share an address where the hash has a collision.
-/

namespace Tenderize

open Support

section Derived

variable {P : Programs} {programId : Pubkey} {hash : List UInt8 → Pubkey}

/-- The strings that are hashed for the roles. -/
def preimages (programId : Pubkey) (roles : Set Role) : Set (List UInt8) :=
  {x | ∃ role ∈ roles, ∃ bump, x = role.hashed programId bump}

theorem role_eq_of_hash_eq {roles : Set Role} (hinj : Set.InjOn hash (preimages programId roles))
    {role role' : Role} {bump bump' : UInt8} (hrole : role ∈ roles) (hrole' : role' ∈ roles)
    (h : hash (role.hashed programId bump) = hash (role'.hashed programId bump')) :
    role = role' :=
  Role.hashed_inj (hinj ⟨role, hrole, bump, rfl⟩ ⟨role', hrole', bump', rfl⟩ h)

variable (P programId) in
/-- The address of a role. -/
def Role.address (role : Role) : Pubkey := (P.findProgramAddress role.seeds programId).1

variable (hP : P.Lawful) (hhash : P.DerivesBy hash)

include hP hhash in
theorem Role.address_hashed (programId : Pubkey) (role : Role) :
    ∃ bump, role.address P programId = hash (role.hashed programId bump) := by
  cases role with
  | authority type pool => exact ⟨_, hhash.derived (hP.authority_address pool type programId)⟩
  | stake validator pool index =>
      exact ⟨_, hhash.derived (hP.stake_address validator pool index programId)⟩

include hP hhash in
theorem Role.address_inj {roles : Set Role}
    (hinj : Set.InjOn hash (preimages programId roles)) {role role' : Role}
    (hrole : role ∈ roles) (hrole' : role' ∈ roles)
    (h : role.address P programId = role'.address P programId) : role = role' := by
  obtain ⟨bump, hbytes⟩ := role.address_hashed hP hhash programId
  obtain ⟨bump', hbytes'⟩ := role'.address_hashed hP hhash programId
  rw [hbytes, hbytes'] at h
  exact role_eq_of_hash_eq hinj hrole hrole' h

include hhash in
theorem authorityId_hashed {pool key : Pubkey} {type : AuthorityType} {bump : UInt8}
    (h : authorityId P programId pool type bump = .ok key) :
    key = hash ((Role.authority type pool).hashed programId bump) :=
  hhash.derived (okOr_eq_ok.mp h)

/-- The hashed strings tell the roles apart.  Unless the hash has a collision on the roles in
use, a stake address passes the check only for its own validator, pool and index, and no
stake address is one of the other addresses of a pool. -/
theorem derived_addresses_apart :
    (∀ (role role' : Role) (bump bump' : UInt8),
      role.bytes bump = role'.bytes bump' → role = role') ∧
    ∀ (P : Programs) (programId : Pubkey) (hash : List UInt8 → Pubkey) (roles : Set Role),
      P.Lawful → P.DerivesBy hash → Set.InjOn hash (preimages programId roles) →
      ∀ (record : ValidatorStakeInfo) (pool : Pubkey) (index : UInt32),
        Role.stake record.validatorAccount pool index ∈ roles →
        (∀ (record' : ValidatorStakeInfo) (pool' : Pubkey) (index' : UInt32) (bump : UInt8),
          Role.stake record'.validatorAccount pool' index' ∈ roles →
          record'.checkValidatorStakeAddress P programId pool' index'
            (record.stakeAddress P programId pool index).1 = .ok bump →
          record'.validatorAccount = record.validatorAccount ∧ pool' = pool ∧ index' = index) ∧
        ∀ (type : AuthorityType) (pool' : Pubkey), Role.authority type pool' ∈ roles →
          (record.stakeAddress P programId pool index).1 ≠
            (findAuthorityBumpSeed P programId pool' type).1 ∧
          ∀ bump, authorityId P programId pool' type bump ≠
            .ok (record.stakeAddress P programId pool index).1 := by
  refine ⟨fun _ _ _ _ => Role.bytes_inj, ?_⟩
  intro P programId hash roles hP hhash hinj record pool index hstake
  refine ⟨?_, ?_⟩
  · intro record' pool' index' bump hstake' hcheck
    simp only [ValidatorStakeInfo.checkValidatorStakeAddress, bind_eq_ok, require_eq_ok] at hcheck
    obtain ⟨-, hkey, -⟩ := hcheck
    exact Role.stake.inj (Role.address_inj hP hhash hinj hstake' hstake hkey.symm)
  · intro type pool' hauthority
    refine ⟨fun heq => ?_, fun bump hid => ?_⟩
    · cases Role.address_inj hP hhash hinj hstake hauthority heq
    · obtain ⟨bump', hbytes⟩ :=
        (Role.stake record.validatorAccount pool index).address_hashed hP hhash programId
      have hkey := authorityId_hashed hhash hid
      cases role_eq_of_hash_eq hinj hstake hauthority (hbytes.symm.trans hkey)

end Derived

/-! ## The addresses of a pool -/

section Pool

variable (D : Deployment) (W : Set Pubkey)

/-- The roles of a pool with validators in `W`. -/
def Deployment.roles : Set Role :=
  {role | (∃ type, role = .authority type D.poolKey) ∨
    ∃ v ∈ W, ∃ i, role = .stake v D.poolKey i}

variable {D W} {hash : List UInt8 → Pubkey}

/-- What the runs of a pool are assumed to keep apart follows from the hash. -/
theorem Deployment.noCollision_of_hash (hhash : D.programs.DerivesBy hash)
    (hinj : Set.InjOn hash (preimages D.programId (D.roles W))) :
    D.NoCollision W ∧ D.tempKey ≠ D.reserveKey := by
  have hauthority : ∀ type, Role.authority type D.poolKey ∈ D.roles W :=
    fun type => .inl ⟨type, rfl⟩
  have hstake : ∀ v ∈ W, ∀ i, Role.stake v D.poolKey i ∈ D.roles W :=
    fun v hv i => .inr ⟨v, hv, i, rfl⟩
  refine ⟨⟨?_, ?_⟩, ?_⟩
  · intro v hv i heq
    cases Role.address_inj D.lawful hhash hinj (hstake v hv i) (hauthority .reserve) heq
  · intro v hv v' hv' i i' heq
    obtain ⟨hvalidator, -, hindex⟩ := Role.stake.inj
      (Role.address_inj D.lawful hhash hinj (hstake v hv i) (hstake v' hv' i') heq)
    exact ⟨hvalidator, hindex⟩
  · intro heq
    cases Role.address_inj D.lawful hhash hinj (hauthority .temp) (hauthority .reserve) heq

end Pool

/-! ## A hash without collisions on some roles -/

section

open Reference

/-- Index and bump of a stake account; the bump of an address with a literal of seven
letters. -/
def shortHash (x : List UInt8) : Pubkey :=
  if x.length = 122 then ⟨BitVec.ofNat 256 (leValue ((x.drop 64).take 5))⟩
  else ⟨BitVec.ofNat 256 (2 ^ 40 + leValue ((x.drop 39).take 1))⟩

theorem length_addressSuffix (programId : Pubkey) : (addressSuffix programId).length = 53 := by
  unfold addressSuffix
  rw [List.length_append, Pubkey.length_toBytes]
  decide

theorem shortHash_stake (validator pool programId : Pubkey) (index : UInt32) (bump : UInt8) :
    shortHash ((Role.stake validator pool index).hashed programId bump) =
      ⟨BitVec.ofNat 256 (index.toNat + 2 ^ 32 * bump.toNat)⟩ := by
  have hlength : ((Role.stake validator pool index).hashed programId bump).length = 122 := by
    rw [Role.hashed, List.length_append, Role.length_bytes_stake, length_addressSuffix]
  have hsplit : (Role.stake validator pool index).hashed programId bump =
      (validator.toBytes ++ pool.toBytes) ++
        ((leBytes 4 index.toNat ++ [bump]) ++ addressSuffix programId) := by
    rw [Role.hashed, Role.bytes_stake]
    simp only [List.append_assoc]
  have hvalue : leValue (leBytes 4 index.toNat ++ [bump]) = index.toNat + 2 ^ 32 * bump.toNat := by
    rw [leValue_append, leValue_leBytes index.toNat_lt, length_leBytes]
    rfl
  unfold shortHash
  rw [if_pos hlength, hsplit, List.drop_left' (by simp), List.take_left' (by simp), hvalue]

theorem shortHash_reserve (pool programId : Pubkey) (bump : UInt8) :
    shortHash ((Role.authority .reserve pool).hashed programId bump) =
      ⟨BitVec.ofNat 256 (2 ^ 40 + bump.toNat)⟩ := by
  have htype : AuthorityType.reserve.bytes.length = 7 := by decide
  have hsplit : (Role.authority .reserve pool).hashed programId bump =
      (pool.toBytes ++ AuthorityType.reserve.bytes) ++ ([bump] ++ addressSuffix programId) := by
    rw [Role.hashed, Role.bytes_authority]
    simp only [List.append_assoc]
  have hlength : ((Role.authority .reserve pool).hashed programId bump).length ≠ 122 := by
    rw [hsplit]
    simp [htype, length_addressSuffix]
  unfold shortHash
  rw [if_neg hlength, hsplit, List.drop_left' (by simp [htype]),
    List.take_left' List.length_singleton]
  rfl

/-- The stake accounts of one validator, and the reserve. -/
def shortRoles : Set Role :=
  {role | role = .authority .reserve poolKey ∨ ∃ i, role = .stake validatorKey poolKey i}

theorem shortHash_injOn : Set.InjOn shortHash (preimages programId shortRoles) := by
  have hof : ∀ {m n : Nat}, m < 2 ^ 256 → n < 2 ^ 256 →
      (⟨BitVec.ofNat 256 m⟩ : Pubkey) = ⟨BitVec.ofNat 256 n⟩ → m = n := by
    intro m n hm hn heq
    have hbits := congrArg (fun key : Pubkey => key.bits.toNat) heq
    simp only [BitVec.toNat_ofNat] at hbits
    rwa [Nat.mod_eq_of_lt hm, Nat.mod_eq_of_lt hn] at hbits
  rintro _ ⟨_, hrole, b, rfl⟩ _ ⟨_, hrole', b', rfl⟩ heq
  have hb := b.toNat_lt
  have hb' := b'.toNat_lt
  rcases hrole with rfl | ⟨i, rfl⟩ <;> rcases hrole' with rfl | ⟨j, rfl⟩
  · rw [shortHash_reserve, shortHash_reserve] at heq
    have hsame := hof (by omega) (by omega) heq
    rw [UInt8.toNat_inj.mp (show b.toNat = b'.toNat by omega)]
  · have hj := j.toNat_lt
    rw [shortHash_reserve, shortHash_stake] at heq
    have hsame := hof (by omega) (by omega) heq
    omega
  · have hi := i.toNat_lt
    rw [shortHash_stake, shortHash_reserve] at heq
    have hsame := hof (by omega) (by omega) heq
    omega
  · have hi := i.toNat_lt
    have hj := j.toNat_lt
    rw [shortHash_stake, shortHash_stake] at heq
    have hsame := hof (by omega) (by omega) heq
    rw [UInt8.toNat_inj.mp (show b.toNat = b'.toNat by omega),
      UInt32.toNat_inj.mp (show i.toNat = j.toNat by omega)]

/-- The programs of the deployment with addresses that are hashes. -/
def hashedPrograms : Programs :=
  { programs with
    createProgramAddress := fun seeds id => some (shortHash (seedBytes seeds ++ addressSuffix id))
    findProgramAddress := fun seeds id =>
      (shortHash (seedBytes (seeds ++ [.bump 255]) ++ addressSuffix id), 255) }

theorem hashedPrograms_lawful : hashedPrograms.Lawful :=
  { lawful with
    authority_address := fun _ _ _ => rfl
    stake_address := fun _ _ _ _ => rfl }

theorem derived_addresses_apart_shortHash :
    (∀ bump, ValidatorStakeInfo.checkValidatorStakeAddress hashedPrograms programId
      ⟨validatorKey, 0, 0, 0⟩ poolKey 1
      ((⟨validatorKey, 0, 0, 0⟩ : ValidatorStakeInfo).stakeAddress hashedPrograms programId
        poolKey 0).1 ≠ .ok bump) ∧
    ((⟨validatorKey, 0, 0, 0⟩ : ValidatorStakeInfo).stakeAddress hashedPrograms programId
      poolKey 0).1 ≠ (getReserveAddress hashedPrograms programId poolKey).1 := by
  have hhash : hashedPrograms.DerivesBy shortHash := ⟨fun h => (Option.some.inj h).symm⟩
  have hstake : ∀ i, Role.stake validatorKey poolKey i ∈ shortRoles := fun i => .inr ⟨i, rfl⟩
  obtain ⟨hown, hothers⟩ := derived_addresses_apart.2 hashedPrograms programId shortHash shortRoles
    hashedPrograms_lawful hhash shortHash_injOn ⟨validatorKey, 0, 0, 0⟩ poolKey 0 (hstake 0)
  refine ⟨fun bump hcheck => ?_, (hothers .reserve poolKey (.inl rfl)).1⟩
  obtain ⟨-, -, hindex⟩ := hown _ _ _ _ (hstake 1) hcheck
  cases hindex

end

end Tenderize
