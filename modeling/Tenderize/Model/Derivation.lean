import Tenderize.Model.Instruction

/-!
# The bytes behind program addresses

`Pubkey::create_program_address` hashes the seeds one after the other, without separators or
lengths, then the id of the program and a marker.  The program derives addresses for five
roles: four of them start with the key of a pool, those of stake accounts with the key of a
validator.
-/

namespace Tenderize

open Support

/-! ## Seeds -/

def AuthorityType.bytes (type : AuthorityType) : List UInt8 :=
  type.text.toList.map fun c => UInt8.ofNat c.toNat

/-- The bytes of a seed; an index is `transmute`d to its four bytes, lowest first. -/
def Seed.bytes : Seed → List UInt8
  | .key k => k.toBytes
  | .authority type => type.bytes
  | .index i => leBytes 4 i.toNat
  | .bump b => [b]

def seedBytes (seeds : List Seed) : List UInt8 := seeds.flatMap Seed.bytes

/-- What is hashed after the seeds, "ProgramDerivedAddress" last. -/
def addressSuffix (programId : Pubkey) : List UInt8 :=
  programId.toBytes ++ "ProgramDerivedAddress".toList.map fun c => UInt8.ofNat c.toNat

/-- Program addresses are hashes of the seeds, the program's id and the marker. -/
structure Programs.DerivesBy (P : Programs) (hash : List UInt8 → Pubkey) : Prop where
  derived : ∀ {seeds programId key}, P.createProgramAddress seeds programId = some key →
    key = hash (seedBytes seeds ++ addressSuffix programId)

/-! ## Roles -/

/-- What the program derives an address for. -/
inductive Role where
  | authority (type : AuthorityType) (pool : Pubkey)
  | stake (validator pool : Pubkey) (index : UInt32)
deriving DecidableEq

namespace Role

def seeds : Role → List Seed
  | .authority type pool => [.key pool, .authority type]
  | .stake validator pool index => [.key validator, .key pool, .index index]

/-- The bytes that are hashed for a role, up to the id of the program. -/
def bytes (role : Role) (bump : UInt8) : List UInt8 := seedBytes (role.seeds ++ [.bump bump])

/-- All that is hashed for a role. -/
def hashed (programId : Pubkey) (role : Role) (bump : UInt8) : List UInt8 :=
  role.bytes bump ++ addressSuffix programId

end Role

/-! ## Taking the bytes apart -/

theorem Pubkey.toBytes_inj {key key' : Pubkey} (h : key.toBytes = key'.toBytes) : key = key' := by
  have hread := readPubkey_append key []
  rw [h, readPubkey_append] at hread
  exact hread.symm

theorem leBytes_index_inj {i j : UInt32} (h : leBytes 4 i.toNat = leBytes 4 j.toNat) : i = j := by
  have hvalue := congrArg leValue h
  rw [leValue_leBytes i.toNat_lt, leValue_leBytes j.toNat_lt] at hvalue
  exact UInt32.toNat_inj.mp hvalue

theorem AuthorityType.bytes_inj {type type' : AuthorityType} (h : type.bytes = type'.bytes) :
    type = type' := by
  revert h
  cases type <;> cases type' <;> decide

theorem AuthorityType.length_bytes_le (type : AuthorityType) : type.bytes.length ≤ 8 := by
  cases type <;> decide

namespace Role

theorem bytes_authority (type : AuthorityType) (pool : Pubkey) (bump : UInt8) :
    (authority type pool).bytes bump = pool.toBytes ++ (type.bytes ++ [bump]) := by
  simp [bytes, seeds, seedBytes, Seed.bytes]

theorem bytes_stake (validator pool : Pubkey) (index : UInt32) (bump : UInt8) :
    (stake validator pool index).bytes bump =
      validator.toBytes ++ (pool.toBytes ++ (leBytes 4 index.toNat ++ [bump])) := by
  simp [bytes, seeds, seedBytes, Seed.bytes]

theorem length_bytes_authority (type : AuthorityType) (pool : Pubkey) (bump : UInt8) :
    ((authority type pool).bytes bump).length ≤ 41 := by
  have htype := type.length_bytes_le
  rw [bytes_authority]
  simp only [List.length_append, Pubkey.length_toBytes, List.length_singleton]
  omega

theorem length_bytes_stake (validator pool : Pubkey) (index : UInt32) (bump : UInt8) :
    ((stake validator pool index).bytes bump).length = 69 := by
  rw [bytes_stake]
  simp

/-- The literals have different lengths or different letters, and the seeds of a stake
account are longer than all others. -/
theorem bytes_inj {role role' : Role} {bump bump' : UInt8}
    (h : role.bytes bump = role'.bytes bump') : role = role' := by
  cases role with
  | authority type pool =>
      cases role' with
      | authority type' pool' =>
          rw [bytes_authority, bytes_authority] at h
          obtain ⟨hpool, htail⟩ := List.append_inj h (by simp)
          obtain ⟨htype, -⟩ := List.append_inj' htail rfl
          rw [Pubkey.toBytes_inj hpool, AuthorityType.bytes_inj htype]
      | stake validator' pool' index' =>
          have hlength := length_bytes_authority type pool bump
          rw [h, length_bytes_stake] at hlength
          omega
  | stake validator pool index =>
      cases role' with
      | authority type' pool' =>
          have hlength := length_bytes_authority type' pool' bump'
          rw [← h, length_bytes_stake] at hlength
          omega
      | stake validator' pool' index' =>
          rw [bytes_stake, bytes_stake] at h
          obtain ⟨hvalidator, htail⟩ := List.append_inj h (by simp)
          obtain ⟨hpool, htail⟩ := List.append_inj htail (by simp)
          obtain ⟨hindex, -⟩ := List.append_inj' htail rfl
          rw [Pubkey.toBytes_inj hvalidator, Pubkey.toBytes_inj hpool, leBytes_index_inj hindex]

theorem hashed_inj {programId : Pubkey} {role role' : Role} {bump bump' : UInt8}
    (h : role.hashed programId bump = role'.hashed programId bump') : role = role' :=
  bytes_inj (List.append_cancel_right h)

end Role

end Tenderize
