import Gazette.Service.Transcript
import Gazette.Proofs.Json.Reading
import Gazette.Proofs.Service.Forms
import Mathlib.Data.List.TakeWhile

/-!
# Requests in query strings and in bodies

The same request can be sent as the parameters of a query string (`Message.inQuery`) or as JSON in a
body (`Message.inBody`).  The service answers both alike, and leaves the same store
(`Service.get_and_post_agree`), if the query string gives the name of the operation as
`operation_name`.  The name that bodies use, `operationName`, is not read there: such a query string
counts as one without it.
-/

namespace Gazette

/-! ## Messages -/

/-- The variables of a request as they are sent. -/
abbrev SentVariables := Option (List (String × Json))

namespace Message

/-- The parameters of a request, where the name of the operation stands under `operationKey`. -/
def parameters (operationKey query : String) (operation : Option String) (sent : SentVariables) :
    List (String × String) :=
  ("query", query) :: (operation.toList.map (operationKey, ·) ++
    sent.toList.map fun members => ("variables", (Json.object members).text))

/-- A `GET` with a query string. -/
def inQuery (queryString : List Char) : Message where
  method := "GET"
  target := Service.queryPath ++ "?" ++ String.ofList queryString

/-- The JSON of a request. -/
def json (query : String) (operation : Option String) (sent : SentVariables) : Json :=
  .object (("query", .string query) :: (operation.toList.map fun name =>
    ("operationName", Json.string name)) ++ sent.toList.map fun members =>
      ("variables", Json.object members))

/-- A `POST` with the JSON of a request. -/
def inBody (query : String) (operation : Option String) (sent : SentVariables) : Message where
  method := "POST"
  target := Service.queryPath
  contentType := some "application/json"
  body := some (json query operation sent).text

end Message

namespace Service

open Message

/-- The values that variables are read as from a body, where they are inside two objects; none if
they cannot be read. -/
def received? : SentVariables → Option (List (String × Value))
  | none => some []
  | some members => (Json.rereadMembers? (Json.maxNesting - 2) members).map fun members =>
      Entries.ofPairs (Json.toMembers members)

variable {query : String} {operation : Option String} {sent : SentVariables}
  {values : List (String × Value)}

/-! ## What is read -/

theorem splitTarget_inQuery {cs : List Char} (h : '#' ∉ cs) :
    splitTarget (inQuery cs).target = (queryPath, cs) := by
  have htarget : (inQuery cs).target.toList = queryPath.toList ++ '?' :: cs := by
    simp [inQuery]
  have hwhole : (queryPath.toList ++ '?' :: cs).takeWhile (· ≠ '#') =
      queryPath.toList ++ '?' :: cs := by
    have hcs : ∀ c ∈ cs, c ≠ '#' := fun c hc heq => h (heq ▸ hc)
    rw [List.takeWhile_eq_self_iff]
    simpa [queryPath] using hcs
  have hpath : ∀ c ∈ queryPath.toList, c ≠ '?' := by simp [queryPath]
  have hslash : (queryPath.toList ++ '?' :: cs).head? = some '/' := by simp [queryPath]
  rw [splitTarget, htarget, hwhole, localPart, if_pos hslash,
    List.takeWhile_append_of_pos (by simpa using hpath),
    List.dropWhile_append_of_pos (by simpa using hpath)]
  simp

theorem splitTarget_inBody :
    splitTarget (inBody query operation sent).target = (queryPath, []) := by
  show splitTarget queryPath = _
  decide

/-- From a query string, variables are read like those of a body: there they are inside one object
less. -/
theorem valuesOfParameter?_of_received? (h : received? sent = some values) :
    valuesOfParameter? (sent.map fun members => (Json.object members).text) = some values := by
  cases sent with
  | none => exact h
  | some members =>
    obtain ⟨members', hread, rfl⟩ := Option.map_eq_some_iff.1 h
    have hdeeper : Json.rereadMembers? 126 members = some members' :=
      Json.rereadMembers?_mono (by decide) hread
    rw [Option.map_some, valuesOfParameter?, Json.ofText?_text, Json.maxNesting, Json.reread?,
      hdeeper]
    rfl

theorem requestOfForm?_of_single? {form : List (String × String)} {source : Option String}
    (hquery : Form.single? "query" form = .ok (some query))
    (hoperation : Form.single? "operation_name" form = .ok operation)
    (hsource : Form.single? "variables" form = .ok source)
    (hextensions : Form.single? "extensions" form = .ok none)
    (hvalues : valuesOfParameter? source = some values) :
    requestOfForm? form = some ⟨query, operation, values⟩ := by
  rw [requestOfForm?, hquery, hoperation, hsource, hextensions]
  show (valuesOfParameter? source).bind _ = _
  rw [hvalues]
  rfl

theorem single?_query_parameters {operationKey : String} (hkey : operationKey ≠ "query") :
    Form.single? "query" (parameters operationKey query operation sent) = .ok (some query) := by
  cases operation <;> cases sent <;> simp [parameters, Form.single?, hkey]

/-- The name of the operation is read under one key only. -/
theorem requestOfForm?_parameters {operationKey : String}
    (hkey : operationKey ∉ ["query", "variables", "extensions"])
    (h : received? sent = some values) :
    requestOfForm? (parameters operationKey query operation sent) =
      some ⟨query, if operationKey = "operation_name" then operation else none, values⟩ := by
  simp only [List.mem_cons, List.not_mem_nil, or_false, not_or] at hkey
  obtain ⟨hquery, hvariables, hextensions⟩ := hkey
  refine requestOfForm?_of_single? (single?_query_parameters hquery) ?_ ?_ ?_
    (valuesOfParameter?_of_received? h)
  · split <;> rename_i hname <;> cases operation <;> cases sent <;>
      simp [parameters, Form.single?, hname]
  · cases operation <;> cases sent <;> simp [parameters, Form.single?, hvariables]
  · cases operation <;> cases sent <;> simp [parameters, Form.single?, hextensions]

/-- The JSON of a request is read with the members that its variables are read with. -/
theorem exists_reread?_json (query : String) (operation : Option String)
    (h : received? sent = some values) : ∃ members,
    Json.ofText? (json query operation sent).text =
      some (json query operation (sent.map fun _ => members)) ∧
      values = sent.elim [] fun _ => Entries.ofPairs (Json.toMembers members) := by
  rw [Json.ofText?_text]
  cases sent with
  | none =>
    obtain rfl := Option.some.inj h
    refine ⟨[], ?_, rfl⟩
    cases operation <;> rfl
  | some members =>
    obtain ⟨members', hread, rfl⟩ := Option.map_eq_some_iff.1 h
    have hread' : Json.rereadMembers? 125 members = some members' := hread
    refine ⟨members', ?_, rfl⟩
    cases operation <;> simp [json, Json.maxNesting, Json.reread?, Json.rereadMembers?, hread']

theorem requestOfJson?_json (members : List (String × Json)) :
    requestOfJson? (json query operation (sent.map fun _ => members)) =
      some ⟨query, operation, sent.elim [] fun _ => Entries.ofPairs (Json.toMembers members)⟩ := by
  cases operation <;> cases sent <;> rfl

theorem exists_mediaType_json : ∃ type : MediaType, type.type ≠ "multipart" ∧
    MediaType.ofText? (((some "application/json").filter isPlainType).getD "application/json") =
      some type :=
  ⟨_, by decide, rfl⟩

theorem requestOfBody?_inBody (h : received? sent = some values) :
    requestOfBody? (inBody query operation sent).contentType (inBody query operation sent).body =
      some ⟨query, operation, values⟩ := by
  obtain ⟨type, hmultipart, htype⟩ := exists_mediaType_json
  obtain ⟨members, hread, hvalues⟩ := exists_reread?_json query operation h
  rw [hvalues, ← requestOfJson?_json, inBody]
  simp only [requestOfBody?, htype, Option.bind_eq_bind, Option.bind_some, if_neg hmultipart,
    Option.getD_some, hread]

/-! ## What is answered -/

/-- The reply to a request and the store after it. -/
def served (request : Request) (store : Store) : Reply × Store :=
  (⟨200, .response (schema.respond request store).1, true⟩, (schema.respond request store).2)

theorem answer_inBody (page : Bool) (store : Store) (h : received? sent = some values) :
    answer page (inBody query operation sent) store = served ⟨query, operation, values⟩ store := by
  rw [answer, splitTarget_inBody]
  show replyTo (requestOfBody? _ _) store = _
  rw [requestOfBody?_inBody h]
  rfl

theorem answer_inQuery (page : Bool) (store : Store) {operationKey : String}
    (hkey : operationKey ∉ ["query", "variables", "extensions"]) {cs : List Char}
    (hcs : Form.Writes (parameters operationKey query operation sent) cs)
    (h : received? sent = some values) :
    answer page (inQuery cs) store = served
      ⟨query, if operationKey = "operation_name" then operation else none, values⟩ store := by
  have hquery : operationKey ≠ "query" := fun heq => hkey (heq ▸ .head _)
  rw [answer, splitTarget_inQuery (Form.not_mem_of_writes hcs)]
  show answerQuery page (Form.pairs cs) (requestOfForm? (Form.pairs cs)) store = _
  rw [Form.pairs_eq hcs, answerQuery, single?_query_parameters hquery,
    requestOfForm?_parameters hkey h]
  rfl

/-! ## What is refused -/

theorem store_replyTo {request : Option Request} {store : Store}
    (h : (replyTo request store).1.status = 400) : (replyTo request store).2 = store := by
  cases request with
  | none => rfl
  | some request => cases h

theorem store_answerQuery {page : Bool} {form : List (String × String)} {request : Option Request}
    {store : Store} (h : (answerQuery page form request store).1.status = 400) :
    (answerQuery page form request store).2 = store := by
  generalize hanswer : answerQuery page form request store = a at h ⊢
  unfold answerQuery at hanswer
  split at hanswer
  · subst hanswer
    rfl
  · subst hanswer
    split <;> rfl
  · subst hanswer
    exact store_replyTo h

/-- A message that is refused leaves the store as it is. -/
theorem store_answer {page : Bool} {message : Message} {store : Store}
    (h : (answer page message store).1.status = 400) : (answer page message store).2 = store := by
  generalize hanswer : answer page message store = a at h ⊢
  unfold answer at hanswer
  dsimp only at hanswer
  split at hanswer
  · split at hanswer
    · subst hanswer
      exact store_answerQuery h
    · subst hanswer
      exact store_answerQuery h
    · subst hanswer
      exact store_replyTo h
    · subst hanswer
      rfl
  · split at hanswer
    · split at hanswer <;> subst hanswer <;> rfl
    · subst hanswer
      rfl

/-! ## The two ways agree -/

/-- A request with variables that can be read is served alike from a body and from a query string,
however that is written, if its operation is named by `operation_name` there; under the name that
bodies use, the operation is left out.  Messages that are refused change nothing. -/
theorem get_and_post_agree (page : Bool) (store : Store) (query : String)
    (operation : Option String) {sent : SentVariables} {values : List (String × Value)}
    (h : received? sent = some values) :
    answer page (inBody query operation sent) store = served ⟨query, operation, values⟩ store ∧
      (∀ cs, Form.Writes (parameters "operation_name" query operation sent) cs →
        answer page (inQuery cs) store = answer page (inBody query operation sent) store) ∧
      (∀ cs, Form.Writes (parameters "operationName" query operation sent) cs →
        answer page (inQuery cs) store = answer page (inBody query none sent) store) ∧
      ∀ message, (answer page message store).1.status = 400 →
        (answer page message store).2 = store := by
  refine ⟨answer_inBody page store h, fun cs hcs => ?_, fun cs hcs => ?_,
    fun message => store_answer⟩
  · rw [answer_inQuery page store (by decide) hcs h, answer_inBody page store h]
    rfl
  · rw [answer_inQuery page store (by decide) hcs h, answer_inBody page store h]
    rfl

/-- Two operations, of which a request has to name one. -/
def twoOperations : String :=
  "query A \x7b authors \x7b id \x7d \x7d query B \x7b posts \x7b id \x7d \x7d"

/-- Variables with a number, a list and a letter of two bytes. -/
def someVariables : List (String × Json) :=
  [("limit", .int 3), ("names", .array [.string "é", .null])]

theorem get_and_post_agree_twoOperations :
    received? (some someVariables) =
        some [("limit", .number (.int 3)), ("names", .list [.string "é", .null])] ∧
      answer true (inQuery (Form.encodePairs (parameters "operation_name" twoOperations (some "B")
        (some someVariables)))) (Store.empty .epoch) =
        served ⟨twoOperations, some "B",
          [("limit", .number (.int 3)), ("names", .list [.string "é", .null])]⟩
          (Store.empty .epoch) := by
  have hread : received? (some someVariables) =
      some [("limit", .number (.int 3)), ("names", .list [.string "é", .null])] := rfl
  obtain ⟨hbody, hquery, -⟩ :=
    get_and_post_agree true (Store.empty .epoch) twoOperations (some "B") hread
  exact ⟨hread, (hquery _ (Form.writes_encodePairs _)).trans hbody⟩

/-- The operation that a query string names as bodies do is not run. -/
theorem get_and_post_differ : answer false (inQuery (Form.encodePairs
      (parameters "operationName" twoOperations (some "B") none))) (Store.empty .epoch) ≠
    answer false (inBody twoOperations (some "B") none) (Store.empty .epoch) := by
  have hread : received? none = some [] := rfl
  rw [answer_inQuery false _ (by decide) (Form.writes_encodePairs _) hread,
    answer_inBody false _ hread]
  intro h
  have hline := congrArg (fun answer => answer.1.line) h
  revert hline
  decide +kernel

end Service

end Gazette
