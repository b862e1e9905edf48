import Tenderize.Model.WebClient

/-!
# Pending queries of the account cache

`cache.query` notes a promise under the address it asks for.  Only `cache.add` takes the note
away, after it found data and a parser: an answer that does not get so far leaves the promise
in place, and later queries return it without asking again.
-/

namespace Tenderize.Web

open Support

variable {Parser Info : Type} {parsers : Parsers Parser Info} {cache : Cache Parser Info}
  {client client' : Client Parser Info} {address : Pubkey} {obj : AccountView}
  {parser : Option Parser} {request : Request Parser} {response : Response}

/-! ## What the calls do to the pending promises -/

namespace Cache

@[simp] theorem registerParsers_pendingCalls (entries : List (Pubkey × Parser)) :
    (cache.registerParsers entries).pendingCalls = cache.pendingCalls := by
  unfold registerParsers
  induction entries generalizing cache with
  | nil => rfl
  | cons entry entries ih =>
      rw [List.foldl_cons, ih]
      rfl

variable (cache address obj parser) in
/-- `add` gets to the line that takes the promise away. -/
def Settles : Prop :=
  obj.data ≠ [] ∧ (parser.or (cache.keyToAccountParser address)).isSome

theorem add_pendingCalls_of_settles (h : cache.Settles address obj parser) :
    (cache.add parsers address obj parser).1.pendingCalls =
      Function.update cache.pendingCalls address none := by
  obtain ⟨hdata, hparser⟩ := h
  obtain ⟨deserialize, hdeserialize⟩ := Option.isSome_iff_exists.mp hparser
  unfold add
  rw [if_neg (mt List.length_eq_zero_iff.mp hdata), hdeserialize]
  dsimp only
  split
  · rfl
  · exact registerParsers_pendingCalls _
  · exact registerParsers_pendingCalls _

theorem add_of_not_settles (h : ¬cache.Settles address obj parser) :
    (cache.add parsers address obj parser).1 = cache := by
  unfold add
  split
  case isTrue => rfl
  case isFalse hdata =>
    cases hdeserialize : parser.or (cache.keyToAccountParser address) with
    | none => rfl
    | some deserialize =>
        exact absurd ⟨mt List.length_eq_zero_iff.mpr hdata, by rw [hdeserialize]; rfl⟩ h

theorem add_pendingCalls (address' : Pubkey) :
    (cache.add parsers address obj parser).1.pendingCalls address' = cache.pendingCalls address' ∨
      (cache.add parsers address obj parser).1.pendingCalls address' = none := by
  by_cases h : cache.Settles address obj parser
  · rw [add_pendingCalls_of_settles h]
    by_cases haddress : address' = address
    · subst haddress
      exact .inr (Function.update_self _ _ _)
    · exact .inl (Function.update_of_ne haddress _ _)
  · rw [add_of_not_settles h]
    exact .inl rfl

theorem add_result (hdata : obj.data ≠ []) {deserialize : Parser} {account : ParsedAccount Info}
    {registered : List (Pubkey × Parser)}
    (hparser : parser.or (cache.keyToAccountParser address) = some deserialize)
    (hparse : parsers deserialize address obj = .ok (some account, registered)) :
    (cache.add parsers address obj parser).2 = .ok (some account) := by
  unfold add
  rw [if_neg (mt List.length_eq_zero_iff.mp hdata), hparser]
  dsimp only
  rw [hparse]

end Cache

/-! ## Runs -/

/-- Every pending promise belongs to a request without an answer; requests have different
numbers. -/
structure Client.Tidy (client : Client Parser Info) : Prop where
  pending : ∀ address, client.cache.pendingCalls address ≠ none →
    ∃ request ∈ client.unanswered, request.address = address
  nodup : (client.unanswered.map Request.id).Nodup
  numbered : ∀ request ∈ client.unanswered, request.id < client.sent

/-- The answer takes the promise of its address away. -/
def SettledBy (cache : Cache Parser Info) (request : Request Parser) (response : Response) :
    Prop :=
  ∃ data, response = .ok (some data) ∧ cache.Settles request.address data request.parser

theorem received_pendingCalls_of_settled (h : SettledBy cache request response) :
    (Client.received parsers cache request response).1.pendingCalls =
      Function.update cache.pendingCalls request.address none := by
  obtain ⟨data, rfl, hsettles⟩ := h
  exact Cache.add_pendingCalls_of_settles hsettles

theorem received_of_not_settled (h : ¬SettledBy cache request response) :
    (Client.received parsers cache request response).1 = cache := by
  match response with
  | .error _ => rfl
  | .ok none => rfl
  | .ok (some data) =>
      exact Cache.add_of_not_settles fun hsettles => h ⟨data, rfl, hsettles⟩

/-- An answer to the only request for a pending address brings an account with data, and a
parser was passed or is registered. -/
def AnswersSettle (client : Client Parser Info) : CacheEvent Parser Info → Prop
  | .answer request response =>
      client.cache.pendingCalls request.address = none ∨
      (∃ r ∈ client.unanswered, r.id ≠ request.id ∧ r.address = request.address) ∨
      SettledBy client.cache request response
  | _ => True

namespace Client.Tidy

/-- Calls that set no promises and send nothing. -/
theorem with_cache (h : client.Tidy)
    (hpending : ∀ address, cache.pendingCalls address = client.cache.pendingCalls address ∨
      cache.pendingCalls address = none) :
    { client with cache := cache }.Tidy := by
  refine ⟨fun address hne => h.pending address ?_, h.nodup, h.numbered⟩
  rcases hpending address with heq | hnone
  · exact heq ▸ hne
  · exact absurd hnone hne

theorem query (h : client.Tidy) (address : Pubkey) (parser : Option Parser) :
    (client.query address parser).1.Tidy := by
  unfold Client.query
  split
  · exact h
  · split
    · exact h
    · refine ⟨fun address' hne => ?_, ?_, ?_⟩
      · by_cases heq : address' = address
        · exact ⟨_, List.mem_append_right _ (List.mem_singleton_self _), heq.symm⟩
        · change Function.update _ _ _ _ ≠ _ at hne
          rw [Function.update_of_ne heq] at hne
          obtain ⟨request, hmem, hrequest⟩ := h.pending address' hne
          exact ⟨request, List.mem_append_left _ hmem, hrequest⟩
      · change ((client.unanswered ++ [_]).map Request.id).Nodup
        rw [List.map_append, List.nodup_append]
        refine ⟨h.nodup, List.nodup_singleton _, ?_⟩
        intro id hid id' hid'
        obtain ⟨request, hmem, rfl⟩ := List.mem_map.mp hid
        obtain rfl := List.mem_singleton.mp hid'
        exact (h.numbered request hmem).ne
      · intro request hmem
        rcases List.mem_append.mp hmem with hmem | hmem
        · exact (h.numbered request hmem).trans (Nat.lt_succ_self _)
        · obtain rfl := List.mem_singleton.mp hmem
          exact Nat.lt_succ_self _

/-- Requests are told apart by their numbers. -/
theorem eq_of_id (h : client.Tidy) {r r' : Request Parser} (hr : r ∈ client.unanswered)
    (hr' : r' ∈ client.unanswered) (hid : r.id = r'.id) : r = r' :=
  List.inj_on_of_nodup_map h.nodup hr hr' hid

theorem of_other_address (h : client.Tidy) (hrequest : request ∈ client.unanswered)
    (hne : client.cache.pendingCalls address ≠ none) (haddress : address ≠ request.address) :
    ∃ r ∈ client.unanswered, r.id ≠ request.id ∧ r.address = address := by
  obtain ⟨r, hr, rfl⟩ := h.pending address hne
  refine ⟨r, hr, fun hid => haddress ?_, rfl⟩
  exact congrArg Request.address (h.eq_of_id hr hrequest hid)

/-- What is pending after an answer has to have a request besides the answered one. -/
theorem answer_of (h : client.Tidy)
    (hother : ∀ address,
      (client.answer parsers request response).cache.pendingCalls address ≠ none →
      ∃ r ∈ client.unanswered, r.id ≠ request.id ∧ r.address = address) :
    (client.answer parsers request response).Tidy := by
  refine ⟨fun address hne => ?_, ?_, ?_⟩
  · obtain ⟨r, hr, hid, haddress⟩ := hother address hne
    exact ⟨r, List.mem_filter.mpr ⟨hr, decide_eq_true hid⟩, haddress⟩
  · exact h.nodup.sublist (List.filter_sublist.map _)
  · intro r hr
    exact h.numbered r (List.mem_filter.mp hr).1

/-- The condition on answers is exact. -/
theorem answer_iff (h : client.Tidy) (hrequest : request ∈ client.unanswered) :
    (client.answer parsers request response).Tidy ↔
      AnswersSettle client (.answer request response) := by
  by_cases hsettled : SettledBy client.cache request response
  · have hpending : (client.answer parsers request response).cache.pendingCalls =
        Function.update client.cache.pendingCalls request.address none :=
      received_pendingCalls_of_settled hsettled
    refine iff_of_true (h.answer_of fun address hne => ?_) (.inr (.inr hsettled))
    rw [hpending] at hne
    have haddress : address ≠ request.address := by
      rintro rfl
      exact hne (Function.update_self _ _ _)
    rw [Function.update_of_ne haddress] at hne
    exact h.of_other_address hrequest hne haddress
  · have hcache : (client.answer parsers request response).cache = client.cache :=
      received_of_not_settled hsettled
    constructor
    · intro htidy
      by_cases hnone : client.cache.pendingCalls request.address = none
      · exact .inl hnone
      · rw [← hcache] at hnone
        obtain ⟨r, hr, haddress⟩ := htidy.pending _ hnone
        obtain ⟨hr, hid⟩ := List.mem_filter.mp hr
        exact .inr (.inl ⟨r, hr, of_decide_eq_true hid, haddress⟩)
    · intro hcondition
      refine h.answer_of fun address hne => ?_
      rw [hcache] at hne
      by_cases haddress : address = request.address
      · subst haddress
        rcases hcondition with hnone | hother | hsettles
        · exact absurd hnone hne
        · exact hother
        · exact absurd hsettles hsettled
      · exact h.of_other_address hrequest hne haddress

end Client.Tidy

theorem tidy_invariant (parsers : Parsers Parser Info) :
    ((cacheSystem parsers).restrict AnswersSettle).Invariant Client.Tidy where
  init client hstart := by
    rw [show client = Client.start from hstart]
    exact ⟨fun _ hne => absurd rfl hne, List.nodup_nil, fun _ hmem => absurd hmem List.not_mem_nil⟩
  step client e client' h hstep := by
    obtain ⟨hstep, hsettles⟩ := hstep
    cases hstep with
    | query address parser => exact h.query address parser
    | add address obj parser => exact h.with_cache Cache.add_pendingCalls
    | delete address =>
        refine h.with_cache fun _ => .inl ?_
        unfold Cache.delete
        split <;> rfl
    | clear => exact h.with_cache fun _ => .inl rfl
    | registerParser address parser => exact h.with_cache fun _ => .inl rfl
    | native address wrapped parser => exact h.with_cache fun _ => .inl rfl
    | answer request response hrequest =>
        exact (h.answer_iff hrequest).mpr hsettles

/-- In runs whose answers meet the condition, an address is pending only while a request for it
has no answer.  A query for an address without a request and without a cached account asks anew, and
its promise gets the account that the answer brings. -/
theorem pending_only_while_unanswered
    (h : ((cacheSystem parsers).restrict AnswersSettle).Reachable client) :
    (∀ address, client.cache.pendingCalls address ≠ none →
      ∃ request ∈ client.unanswered, request.address = address) ∧
    ∀ address parser, (∀ request ∈ client.unanswered, request.address ≠ address) →
      client.cache.genericCache address = none →
      (client.query address parser).2 = .promise client.sent ∧
      (client.query address parser).1.unanswered =
        client.unanswered ++ [⟨client.sent, address, parser⟩] ∧
      ∀ (client' : Client Parser Info) (deserialize : Parser) (data : AccountView)
        (account : ParsedAccount Info) (registered : List (Pubkey × Parser)), data.data ≠ [] →
        parser.or (client'.cache.keyToAccountParser address) = some deserialize →
        parsers deserialize address data = .ok (some account, registered) →
        (client'.answer parsers ⟨client.sent, address, parser⟩ (.ok (some data))).settled
          client.sent = some (.ok (some account)) := by
  have htidy := (tidy_invariant parsers).reachable h
  refine ⟨htidy.pending, ?_⟩
  intro address parser hrequests hcached
  have hpending : client.cache.pendingCalls address = none := by
    by_contra hne
    obtain ⟨request, hmem, hrequest⟩ := htidy.pending address hne
    exact hrequests request hmem hrequest
  have hquery : client.query address parser =
      ({ client with
          cache :=
            { client.cache with
              pendingCalls :=
                Function.update client.cache.pendingCalls address (some client.sent) }
          unanswered := client.unanswered ++ [⟨client.sent, address, parser⟩]
          sent := client.sent + 1 },
        .promise client.sent) := by
    unfold Client.query
    rw [hcached]
    dsimp only
    rw [hpending]
  rw [hquery]
  refine ⟨rfl, rfl, ?_⟩
  intro client' deserialize data account registered hdata hparser hparse
  have hresult := Cache.add_result hdata hparser hparse
  change Function.update _ client.sent _ client.sent = _
  rw [Function.update_self]
  exact congrArg some hresult

/-- A parser that takes no account whose data is a single zero. -/
def pickyParser : Parsers Unit Buffer := fun _ pubkey info =>
  if info.data = [0] then .ok (none, []) else .ok (some ⟨pubkey, info, info.data⟩, [])

/-- A client whose query got an account that the parser did not take. -/
def unparsed : Client Unit Buffer :=
  (Client.start.query ⟨1⟩ (some ())).1.answer pickyParser ⟨0, ⟨1⟩, some ()⟩
    (.ok (some ⟨⟨7⟩, 500, [0]⟩))

theorem pending_only_while_unanswered_unparsed :
    unparsed.cache.pendingCalls ⟨1⟩ = none ∧
    (unparsed.query ⟨1⟩ (some ())).1.unanswered = [⟨1, ⟨1⟩, some ()⟩] ∧
    ∃ account, ((unparsed.query ⟨1⟩ (some ())).1.answer pickyParser ⟨1, ⟨1⟩, some ()⟩
      (.ok (some ⟨⟨7⟩, 500, [1]⟩))).settled 1 = some (.ok (some account)) := by
  have hreachable : ((cacheSystem pickyParser).restrict AnswersSettle).Reachable unparsed := by
    refine .step (.step (.init rfl) ⟨.query _ ⟨1⟩ (some ()), trivial⟩)
      ⟨.answer _ ⟨0, ⟨1⟩, some ()⟩ (.ok (some ⟨⟨7⟩, 500, [0]⟩)) List.mem_cons_self, ?_⟩
    exact .inr (.inr ⟨_, rfl, List.cons_ne_nil _ _, rfl⟩)
  obtain ⟨-, hquery⟩ := pending_only_while_unanswered hreachable
  obtain ⟨-, hsent, hanswer⟩ :=
    hquery ⟨1⟩ (some ()) (fun _ hmem => absurd hmem List.not_mem_nil) rfl
  exact ⟨rfl, hsent, _, hanswer _ () ⟨⟨7⟩, 500, [1]⟩ _ [] (List.cons_ne_nil _ _) rfl rfl⟩

/-- A client whose only query got the response. -/
def answered (response : Response) : Client Unit Buffer :=
  (Client.start.query ⟨1⟩ (some ())).1.answer genericAccountParser ⟨0, ⟨1⟩, some ()⟩ response

theorem answered_reachable (response : Response) :
    (cacheSystem genericAccountParser).Reachable (answered response) :=
  .step (.step (.init rfl) (.query _ ⟨1⟩ (some ())))
    (.answer _ ⟨0, ⟨1⟩, some ()⟩ response List.mem_cons_self)

/-- No request is left, the address is pending, and the next query returns the promise that has
no account and sends nothing. -/
def Stuck (client : Client Unit Buffer) : Prop :=
  (cacheSystem genericAccountParser).Reachable client ∧
  client.unanswered = [] ∧ client.cache.pendingCalls ⟨1⟩ = some 0 ∧
  (∀ account, client.settled 0 ≠ some (.ok (some account))) ∧
  (client.query ⟨1⟩ (some ())).1.unanswered = [] ∧
  (client.query ⟨1⟩ (some ())).2 = .promise 0

theorem query_stuck_on_settled_promise :
    Stuck (answered (.error (.error "timeout"))) ∧ Stuck (answered (.ok none)) ∧
      Stuck (answered (.ok (some ⟨⟨7⟩, 500, []⟩))) := by
  refine ⟨⟨answered_reachable _, rfl, rfl, ?_, rfl, rfl⟩,
    ⟨answered_reachable _, rfl, rfl, ?_, rfl, rfl⟩,
    ⟨answered_reachable _, rfl, rfl, ?_, rfl, rfl⟩⟩
  · intro account h
    cases h
  · intro account h
    cases h
  · intro account h
    cases h

end Tenderize.Web
