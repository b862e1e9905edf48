import Tenderize.Model.Planner
import Tenderize.Support.Transition

/-!
# The web client

What the web client decides from what it has read: whether it offers an instant withdrawal
(`WithdrawInput` and `actions/withdraw`), and what its account cache holds
(`contexts/accounts`, with the two callers in `contexts/market` that fill the cache from one
request for many accounts).  Numbers are doubles, so lamports and their sums are rounded.
Addresses are keys in place of their base 58 texts.
-/

namespace Tenderize.Web

open Support

/-! ## Instant withdrawals -/

/-- `+` of two numbers that are integers. -/
def addNumbers (a b : Nat) : Nat := numberOfBigInt (a + b)

def getMinimumBalanceForRentExemption (rent : Rent) (dataLength : Nat) : Nat :=
  numberOfBigInt (rent.minimumBalance dataLength).toNat

/-- The lamports in the answer of `getAccountInfo`; an account without lamports is `null`. -/
def accountLamports (lamports : UInt64) : Option Nat :=
  if lamports = 0 then none else some (numberOfBigInt lamports.toNat)

/-- The state of the component. -/
structure WithdrawInput where
  reserve : Option Nat
  minimumBalance : Nat

namespace WithdrawInput

/-- The state before the node has answered. -/
def mounted : WithdrawInput := ⟨none, 0⟩

def setReserve (input : WithdrawInput) (lamports : UInt64) : WithdrawInput :=
  { input with reserve := accountLamports lamports }

def setMinimumBalance (input : WithdrawInput) (rent : Rent) : WithdrawInput :=
  { input with
    minimumBalance := addNumbers (getMinimumBalanceForRentExemption rent TokenAccount.LEN) 1 }

def isReserveDepleted (input : WithdrawInput) (amount : Nat) : Bool :=
  match input.reserve with
  | none => true
  | some lamports => lamports < addNumbers input.minimumBalance amount

end WithdrawInput

/-- The reserve check of the `withdraw` action. -/
def checkReserve (rent : Rent) (reserve : UInt64) (amountLamports : Nat) : Except JsError Unit :=
  let minReserveBalance := addNumbers (getMinimumBalanceForRentExemption rent 0)
    (getMinimumBalanceForRentExemption rent TokenAccount.LEN)
  match accountLamports reserve with
  | none => .error (.error "Not enough funds")
  | some lamports =>
      require (¬lamports < addNumbers minReserveBalance amountLamports) (.error "Not enough funds")

/-! ## The account cache -/

structure ParsedAccount (Info : Type) where
  pubkey : Pubkey
  account : AccountView
  info : Info

/-- The parsers by their names: what they return, possibly `undefined`, and the parsers they
register on the way. -/
abbrev Parsers (Parser Info : Type) :=
  Parser → Pubkey → AccountView →
    Except JsError (Option (ParsedAccount Info) × List (Pubkey × Parser))

/-- `GenericAccountParser`, as the only parser. -/
def genericAccountParser : Parsers Unit Buffer :=
  fun _ pubkey info => .ok (some ⟨pubkey, info, info.data⟩, [])

structure Cache (Parser Info : Type) where
  genericCache : Pubkey → Option (ParsedAccount Info)
  /-- The promises of requests, by their numbers. -/
  pendingCalls : Pubkey → Option Nat
  keyToAccountParser : Pubkey → Option Parser

variable {Parser Info : Type}

namespace Cache

def empty : Cache Parser Info := ⟨fun _ => none, fun _ => none, fun _ => none⟩

def registerParser (cache : Cache Parser Info) (pubkey : Pubkey) (parser : Parser) :
    Cache Parser Info :=
  { cache with
    keyToAccountParser := Function.update cache.keyToAccountParser pubkey (some parser) }

def registerParsers (cache : Cache Parser Info) (parsers : List (Pubkey × Parser)) :
    Cache Parser Info :=
  parsers.foldl (fun cache entry => cache.registerParser entry.1 entry.2) cache

variable (parsers : Parsers Parser Info)

/-- The cache after a call and what the call returns; what was written before an exception
stays. -/
def add (cache : Cache Parser Info) (address : Pubkey) (obj : AccountView)
    (parser : Option Parser) : Cache Parser Info × Except JsError (Option (ParsedAccount Info)) :=
  if obj.data.length = 0 then (cache, .ok none)
  else
    match parser.or (cache.keyToAccountParser address) with
    | none =>
        (cache, .error (.error "Deserializer needs to be registered or passed as a parameter"))
    | some deserialize =>
        let cache := cache.registerParser address deserialize
        let cache := { cache with pendingCalls := Function.update cache.pendingCalls address none }
        match parsers deserialize address obj with
        | .error e => (cache, .error e)
        | .ok (none, registered) => (cache.registerParsers registered, .ok none)
        | .ok (some account, registered) =>
            let cache := cache.registerParsers registered
            ({ cache with
                genericCache := Function.update cache.genericCache address (some account) },
              .ok (some account))

def delete (cache : Cache Parser Info) (address : Pubkey) : Cache Parser Info × Bool :=
  if (cache.genericCache address).isSome then
    ({ cache with genericCache := Function.update cache.genericCache address none }, true)
  else (cache, false)

def clear (cache : Cache Parser Info) : Cache Parser Info :=
  { cache with genericCache := fun _ => none }

end Cache

/-! ## Queries and their answers -/

/-- A request that `cache.query` sent. -/
structure Request (Parser : Type) where
  id : Nat
  address : Pubkey
  parser : Option Parser

structure Client (Parser Info : Type) where
  cache : Cache Parser Info
  /-- The requests without an answer. -/
  unanswered : List (Request Parser)
  /-- What the promises of answered requests were settled with. -/
  settled : Nat → Option (Except JsError (Option (ParsedAccount Info)))
  /-- The number of requests sent. -/
  sent : Nat

inductive Reply (Info : Type) where
  | account (account : ParsedAccount Info)
  | promise (id : Nat)

/-- What `getAccountInfo` answers, `null` for an account that does not exist. -/
abbrev Response := Except JsError (Option AccountView)

namespace Client

def start : Client Parser Info := ⟨.empty, [], fun _ => none, 0⟩

def query (client : Client Parser Info) (address : Pubkey) (parser : Option Parser) :
    Client Parser Info × Reply Info :=
  match client.cache.genericCache address with
  | some account => (client, .account account)
  | none =>
      match client.cache.pendingCalls address with
      | some query => (client, .promise query)
      | none =>
          ({ client with
              cache :=
                { client.cache with
                  pendingCalls :=
                    Function.update client.cache.pendingCalls address (some client.sent) }
              unanswered := client.unanswered ++ [⟨client.sent, address, parser⟩]
              sent := client.sent + 1 },
            .promise client.sent)

variable (parsers : Parsers Parser Info)

/-- What is done with the answer to a request. -/
def received (cache : Cache Parser Info) (request : Request Parser) :
    Response → Cache Parser Info × Except JsError (Option (ParsedAccount Info))
  | .error e => (cache, .error e)
  | .ok none => (cache, .error (.error "Account not found"))
  | .ok (some data) => cache.add parsers request.address data request.parser

def answer (client : Client Parser Info) (request : Request Parser) (response : Response) :
    Client Parser Info :=
  let (cache, result) := received parsers client.cache request response
  { client with
    cache := cache
    unanswered := client.unanswered.filter fun r => r.id ≠ request.id
    settled := Function.update client.settled request.id (some result) }

end Client

/-- What happens to the cache, in any order. -/
inductive CacheEvent (Parser Info : Type) where
  | query (address : Pubkey) (parser : Option Parser)
  | add (address : Pubkey) (obj : AccountView) (parser : Option Parser)
  | delete (address : Pubkey)
  | clear
  | registerParser (address : Pubkey) (parser : Parser)
  /-- The wallet's own account, which `UseNativeAccount` puts into the cache. -/
  | native (address : Pubkey) (wrapped : ParsedAccount Info) (parser : Parser)
  | answer (request : Request Parser) (response : Response)

/-- One event; only requests without an answer are answered. -/
inductive Client.Step (parsers : Parsers Parser Info) :
    Client Parser Info → CacheEvent Parser Info → Client Parser Info → Prop
  | query (client : Client Parser Info) (address : Pubkey) (parser : Option Parser) :
      Step parsers client (.query address parser) (client.query address parser).1
  | add (client : Client Parser Info) (address : Pubkey) (obj : AccountView)
      (parser : Option Parser) :
      Step parsers client (.add address obj parser)
        { client with cache := (client.cache.add parsers address obj parser).1 }
  | delete (client : Client Parser Info) (address : Pubkey) :
      Step parsers client (.delete address)
        { client with cache := (client.cache.delete address).1 }
  | clear (client : Client Parser Info) :
      Step parsers client .clear { client with cache := client.cache.clear }
  | registerParser (client : Client Parser Info) (address : Pubkey) (parser : Parser) :
      Step parsers client (.registerParser address parser)
        { client with cache := client.cache.registerParser address parser }
  | native (client : Client Parser Info) (address : Pubkey) (wrapped : ParsedAccount Info)
      (parser : Parser) :
      Step parsers client (.native address wrapped parser)
        { client with
          cache :=
            { client.cache.registerParser address parser with
              genericCache :=
                Function.update client.cache.genericCache address (some wrapped) } }
  | answer (client : Client Parser Info) (request : Request Parser) (response : Response) :
      request ∈ client.unanswered →
      Step parsers client (.answer request response) (client.answer parsers request response)

/-- The runs of the web client's cache. -/
def cacheSystem (parsers : Parsers Parser Info) :
    System (Client Parser Info) (CacheEvent Parser Info) where
  init client := client = .start
  step := Client.Step parsers

/-! ## Many accounts in one request -/

/-- An account as the node sends it, its data encoded. -/
structure EncodedAccount where
  owner : Pubkey
  lamports : Nat
  data : String × String

/-- What the node answers to a request for many accounts. -/
structure MultipleAccountsResponse where
  error : Option String
  value : Option (List (Option EncodedAccount))

def chunks {α : Type} (array : List α) (size : Nat) : List (List α) :=
  (List.range ((array.length + size - 1) / size)).map fun index =>
    (array.take ((index + 1) * size)).drop (index * size)

section Multiple

variable (fromBase64 : String → Buffer) (rpcRequest : List Pubkey → MultipleAccountsResponse)

def EncodedAccount.decode (acc : EncodedAccount) : AccountView :=
  ⟨acc.owner, acc.lamports, fromBase64 acc.data.1⟩

def getMultipleAccountsCore (keys : List Pubkey) :
    Except JsError (List (Option EncodedAccount)) :=
  match (rpcRequest keys).error with
  | some message => .error (.error ("failed to get info about account " ++ message))
  | none => okOr (rpcRequest keys).value (.error "")

def getMultipleAccounts (keys : List Pubkey) :
    Except JsError (List Pubkey × List AccountView) := do
  let result ← (chunks keys 99).mapM (getMultipleAccountsCore rpcRequest)
  let array := (result.map fun (a : List (Option EncodedAccount)) =>
    (a.map fun acc => acc.map (EncodedAccount.decode fromBase64)).filterMap id).flatten
  pure (keys, array)

end Multiple

/-! ## The callers

Both callers map over the accounts and look up the key at the same index. -/

section Callers

variable (parsers : Parsers Parser Info)

/-- `cache.add` for one item after the other, up to the first exception; `new PublicKey` throws
where there is no key. -/
def addItems (parser : Option Parser) : List (Option Pubkey × AccountView) →
    Cache Parser Info → Cache Parser Info × Except JsError (List (Option (ParsedAccount Info)))
  | [], cache => (cache, .ok [])
  | (none, _) :: _, cache => (cache, .error .typeError)
  | (some address, item) :: items, cache =>
      match cache.add parsers address item parser with
      | (cache, .error e) => (cache, .error e)
      | (cache, .ok account) =>
          let (cache, rest) := addItems parser items cache
          (cache, rest.map fun accounts => account :: accounts)

variable (fromBase64 : String → Buffer) (rpcRequest : List Pubkey → MultipleAccountsResponse)

def refreshAccounts (keys : List Pubkey) (cache : Cache Parser Info) :
    Cache Parser Info × Except JsError (List (Option (ParsedAccount Info))) :=
  if keys.length = 0 then (cache, .ok [])
  else
    match getMultipleAccounts fromBase64 rpcRequest keys with
    | .error e => (cache, .error e)
    | .ok (keys, array) => addItems parsers none (besides keys array) cache

/-- `marketByMint`: the address of the market of each mint. -/
structure Markets where
  entries : List (Pubkey × Pubkey)
  nodup : (entries.map Prod.fst).Nodup

namespace Markets

/-- `reverseSerumMarketCache.set`. -/
def setMint (mints : Pubkey → Option Pubkey) (entry : Pubkey × Pubkey) : Pubkey → Option Pubkey :=
  Function.update mints entry.2 (some entry.1)

variable (markets : Markets)

def addresses : List Pubkey := markets.entries.map Prod.snd

/-- `reverseSerumMarketCache`. -/
def reverse : Pubkey → Option Pubkey :=
  markets.entries.foldl setMint fun _ => none

/-- The address of the market whose address was found at an index, if it is known. -/
def find (marketAddress : Option Pubkey) : Option Pubkey := do
  let mintAddress ← markets.reverse (← marketAddress)
  markets.entries.lookup mintAddress

/-- The markets `initalQuery` asks for: those that are not in the cache. -/
def toQuery (cache : Cache Parser Info) : List Pubkey :=
  markets.addresses.filter fun address => (cache.genericCache address).isNone

/-- The items `initalQuery` adds, with the addresses it adds them under. -/
def items (keys : List Pubkey) (array : List AccountView) : List (Option Pubkey × AccountView) :=
  (besides keys array).filterMap fun entry =>
    (markets.find entry.1).map fun id => (some id, entry.2)

end Markets

/-- The first request of `initalQuery`. -/
def initalQuery (dexMarketParser : Parser) (markets : Markets) (cache : Cache Parser Info) :
    Cache Parser Info × Except JsError Unit :=
  match getMultipleAccounts fromBase64 rpcRequest (markets.toQuery cache) with
  | .error e => (cache, .error e)
  | .ok (keys, array) =>
      let (cache, accounts) :=
        addItems parsers (some dexMarketParser) (markets.items keys array) cache
      (cache, accounts.map fun _ => ())

end Callers

end Tenderize.Web
