import Tenderize.Model.WebClient

/-!
# Fetched accounts and their keys

`getMultipleAccounts` drops the accounts that do not exist and returns the keys as they were
given.  Its callers pair both by index, so they store accounts under the keys of others as
soon as a missing account is followed by one that exists.
-/

namespace Tenderize.Web

open Support

theorem chunks_eq_chunk {α : Type} (array : List α) (size : Nat) :
    chunks array size = chunk size array := by
  unfold chunks chunk
  congr 1
  funext index
  rw [List.drop_take, Nat.succ_mul, Nat.add_sub_cancel_left]

/-! ## The request -/

section Request

variable (fromBase64 : String → Buffer) (node : Pubkey → Option EncodedAccount)

/-- A node that has the accounts `node`. -/
def answering (keys : List Pubkey) : MultipleAccountsResponse := ⟨none, some (keys.map node)⟩

/-- The account of a key as the client decodes it. -/
def fetched (key : Pubkey) : Option AccountView :=
  (node key).map (EncodedAccount.decode fromBase64)

theorem getMultipleAccounts_answering (keys : List Pubkey) :
    getMultipleAccounts fromBase64 (answering node) keys =
      .ok (keys, keys.filterMap (fetched fromBase64 node)) := by
  have hcore : ∀ parts : List (List Pubkey),
      parts.mapM (getMultipleAccountsCore (answering node)) = .ok (parts.map (List.map node)) := by
    intro parts
    induction parts with
    | nil => rfl
    | cons part parts ih =>
        rw [List.mapM_cons, ih]
        rfl
  have hflatten : (chunks keys 99).flatten = keys := by
    rw [chunks_eq_chunk, flatten_chunk (by decide)]
  have hpart : ∀ part : List Pubkey,
      ((part.map node).map fun acc => acc.map (EncodedAccount.decode fromBase64)).filterMap id =
        part.filterMap (fetched fromBase64 node) := by
    intro part
    rw [List.map_map, List.filterMap_map]
    rfl
  simp only [getMultipleAccounts, bind_eq_ok, pure_eq_ok]
  refine ⟨_, hcore _, congrArg (Prod.mk keys) ?_⟩
  rw [List.map_map]
  change ((chunks keys 99).map fun part => _).flatten = _
  simp only [Function.comp_apply, hpart]
  rw [← List.filterMap_flatten, hflatten]

end Request

/-! ## What the callers store -/

section Callers

variable {fromBase64 : String → Buffer} {node : Pubkey → Option EncodedAccount}
  {keys : List Pubkey}

variable (fromBase64 node keys) in
/-- The items are stored under their own keys, and all accounts that exist are stored. -/
structure Stored (items : List (Option Pubkey × AccountView)) : Prop where
  own : ∀ item ∈ items, ∃ key, item.1 = some key ∧ fetched fromBase64 node key = some item.2
  all : ∀ key ∈ keys, ∀ account, fetched fromBase64 node key = some account →
    (some key, account) ∈ items

variable (node keys) in
/-- The accounts that do not exist come last. -/
def MissingLast : Prop := keys.Pairwise fun key key' => node key = none → node key' = none

variable (fromBase64) in
theorem missingLast_iff : MissingLast node keys ↔ GapsLast (fetched fromBase64 node) keys := by
  unfold MissingLast GapsLast fetched
  simp only [Option.map_eq_none_iff]

theorem stored_iff :
    Stored fromBase64 node keys
        (besides keys (keys.filterMap (fetched fromBase64 node))) ↔ MissingLast node keys := by
  rw [missingLast_iff fromBase64]
  constructor
  · rintro ⟨hown, -⟩
    exact gapsLast_of_besides hown
  · intro hlast
    rw [besides_filterMap_of_gapsLast hlast]
    refine ⟨?_, ?_⟩
    · intro item hitem
      obtain ⟨key, -, hkey⟩ := List.mem_filterMap.mp hitem
      obtain ⟨account, haccount, rfl⟩ := Option.map_eq_some_iff.mp hkey
      exact ⟨key, rfl, haccount⟩
    · intro key hkey account haccount
      exact List.mem_filterMap.mpr ⟨key, hkey, by rw [haccount]; rfl⟩

end Callers

/-! ## The markets -/

namespace Markets

variable {markets : Markets}

/-- The last mint of a market is found under the address of the market. -/
theorem foldl_setMint (entries : List (Pubkey × Pubkey)) (mints : Pubkey → Option Pubkey)
    (address : Pubkey) :
    (∃ mint, (mint, address) ∈ entries ∧ entries.foldl setMint mints address = some mint) ∨
      (address ∉ entries.map Prod.snd ∧
        entries.foldl setMint mints address = mints address) := by
  induction entries generalizing mints with
  | nil => exact .inr ⟨List.not_mem_nil, rfl⟩
  | cons entry entries ih =>
      rw [List.foldl_cons]
      rcases ih (setMint mints entry) with ⟨mint, hmem, heq⟩ | ⟨hnot, heq⟩
      · exact .inl ⟨mint, List.mem_cons_of_mem _ hmem, heq⟩
      · rw [heq]
        by_cases haddress : address = entry.2
        · subst haddress
          exact .inl ⟨entry.1, List.mem_cons_self, Function.update_self _ _ _⟩
        · refine .inr ⟨?_, Function.update_of_ne haddress _ _⟩
          rw [List.map_cons, List.mem_cons]
          rintro (h | h)
          · exact haddress h
          · exact hnot h

theorem lookup_of_mem {entries : List (Pubkey × Pubkey)} (hnodup : (entries.map Prod.fst).Nodup)
    {mint address : Pubkey} (h : (mint, address) ∈ entries) :
    entries.lookup mint = some address := by
  induction entries with
  | nil => cases h
  | cons entry entries ih =>
      rw [List.map_cons, List.nodup_cons] at hnodup
      rcases List.mem_cons.mp h with rfl | hmem
      · exact List.lookup_cons_self
      · have hne : mint ≠ entry.1 := by
          intro heq
          exact hnodup.1 (heq ▸ List.mem_map_of_mem hmem)
        rw [List.lookup_cons, beq_eq_false_iff_ne.mpr hne]
        exact ih hnodup.2 hmem

/-- The way through the mints leads back to the address. -/
theorem find_address {address : Pubkey} (h : address ∈ markets.addresses) :
    markets.find (some address) = some address := by
  rcases foldl_setMint markets.entries (fun _ => none) address with ⟨mint, hmem, heq⟩ | ⟨hnot, -⟩
  · change (markets.reverse address >>= fun mint => markets.entries.lookup mint) = _
    rw [show markets.reverse address = some mint from heq]
    exact lookup_of_mem markets.nodup hmem
  · exact absurd h hnot

/-- All items are added, under the keys at their places. -/
theorem items_eq_besides {keys : List Pubkey} (hkeys : ∀ key ∈ keys, key ∈ markets.addresses)
    {array : List AccountView} (hlength : array.length ≤ keys.length) :
    markets.items keys array = besides keys array := by
  unfold items
  rw [List.filterMap_congr (g := some), List.filterMap_some]
  intro entry hentry
  unfold besides at hentry
  rw [List.mem_mapIdx] at hentry
  obtain ⟨i, hi, rfl⟩ := hentry
  have hget : keys[i]? = some keys[i] := List.getElem?_eq_getElem (by omega)
  rw [hget, find_address (hkeys _ (List.getElem_mem _))]
  rfl

end Markets

/-- Chunking keeps the keys.  Both callers add the fetched accounts under the keys at the same
places, which are their own keys exactly when the accounts that do not exist come last. -/
theorem accounts_paired_iff {Parser Info : Type} (parsers : Parsers Parser Info)
    (dexMarketParser : Parser) (fromBase64 : String → Buffer)
    (node : Pubkey → Option EncodedAccount) (keys : List Pubkey) :
    ((chunks keys 99).flatten = keys ∧ ∀ part ∈ chunks keys 99, part.length ≤ 99) ∧
    ∃ array, getMultipleAccounts fromBase64 (answering node) keys = .ok (keys, array) ∧
      ((∀ cache, refreshAccounts parsers fromBase64 (answering node) keys cache =
          addItems parsers none (besides keys array) cache) ∧
        (Stored fromBase64 node keys (besides keys array) ↔ MissingLast node keys)) ∧
      ∀ (markets : Markets) (cache : Cache Parser Info), markets.toQuery cache = keys →
        (initalQuery parsers fromBase64 (answering node) dexMarketParser markets cache).1 =
          (addItems parsers (some dexMarketParser) (markets.items keys array) cache).1 ∧
        (Stored fromBase64 node keys (markets.items keys array) ↔ MissingLast node keys) := by
  have hget := getMultipleAccounts_answering fromBase64 node keys
  refine ⟨⟨?_, ?_⟩, _, hget, ⟨?_, stored_iff⟩, ?_⟩
  · rw [chunks_eq_chunk, flatten_chunk (by decide)]
  · rw [chunks_eq_chunk]
    exact fun part hpart => (chunk_part (by decide) hpart).2
  · intro cache
    unfold refreshAccounts
    split
    case isTrue hzero =>
      rw [List.length_eq_zero_iff.mp hzero]
      rfl
    case isFalse => rw [hget]
  · rintro markets cache rfl
    have hitems : markets.items (markets.toQuery cache)
        ((markets.toQuery cache).filterMap (fetched fromBase64 node)) =
        besides (markets.toQuery cache)
          ((markets.toQuery cache).filterMap (fetched fromBase64 node)) :=
      Markets.items_eq_besides (fun key hkey => (List.mem_filter.mp hkey).1)
        (List.length_filterMap_le _ _)
    refine ⟨?_, ?_⟩
    · unfold initalQuery
      rw [hget]
    · rw [hitems]
      exact stored_iff

/-! ## An account under the key of another -/

section

/-- A cache that knows a parser for every address. -/
def registeredCache : Cache Unit Buffer := ⟨fun _ => none, fun _ => none, fun _ => some ()⟩

/-- Of two accounts the first does not exist. -/
def secondOnly (key : Pubkey) : Option EncodedAccount :=
  if key = ⟨2⟩ then some ⟨⟨7⟩, 500, ("AQ==", "base64")⟩ else none

theorem account_stored_under_other_key :
    ∃ cache, (refreshAccounts genericAccountParser (fun _ => [1]) (answering secondOnly)
        [⟨1⟩, ⟨2⟩] registeredCache).1 = cache ∧
      secondOnly ⟨1⟩ = none ∧
      (cache.genericCache ⟨1⟩).map (fun parsed => (parsed.pubkey, parsed.account.lamports)) =
        some (⟨1⟩, 500) ∧
      (cache.genericCache ⟨2⟩).isNone ∧
      ¬Stored (fun _ => [1]) secondOnly [⟨1⟩, ⟨2⟩]
        (besides [⟨1⟩, ⟨2⟩] ([⟨1⟩, ⟨2⟩].filterMap (fetched (fun _ => [1]) secondOnly))) := by
  refine ⟨_, rfl, rfl, rfl, rfl, ?_⟩
  rw [stored_iff]
  intro hlast
  cases (List.pairwise_cons.mp hlast).1 _ (List.mem_singleton_self _) rfl

end

end Tenderize.Web
