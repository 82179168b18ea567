import AgentMemory.Lib.PyJson

/-!
# The MCP server over stdio

`run_stdio` and `MCPServer` of `mcp_server.py`. The tools are what the server sees of them: a
name that is looked up, a call that takes the arguments and the state of the vault and comes
back with an object or with the text of the exception it raised.

`handle` catches what a method raises, but the request id is read before its `try`, parsing
and writing stand outside any, and a line is dispatched whatever JSON value it is.
`robust_iff` says which sequences of lines the loop gets through.
-/

namespace AgentMemory.Mcp

open PyJson

variable {F σ : Type}

/-- The object a tool returns: a JSON value, or one that `json.dumps` refuses with this text. -/
inductive Returned (F : Type) where
  | value (v : Value F)
  | other (complaint : Str)

/-- `LivingMemoryTools` over the states `σ` of its vault. -/
structure Tools (F σ : Type) where
  handlers : Str → Option (Value F → σ → Except Str (Returned F) × σ)
  descriptors : Value F

/-! ### Replies (`mcp_server.py:1947-1952`) -/

def response (id result : Value F) : Value F :=
  .obj [(lit "jsonrpc", .str (lit "2.0")), (lit "id", id), (lit "result", result)]

def errorResponse (id : Value F) (code : Int) (message : Str) : Value F :=
  .obj [(lit "jsonrpc", .str (lit "2.0")), (lit "id", id),
    (lit "error", .obj [(lit "code", .int code), (lit "message", .str message)])]

/-! ### Python's reading of a message -/

/-- `bool(v)`. -/
def truthy (rt : Runtime F) : Value F → Bool
  | .null => false
  | .bool b => b
  | .int n => n ≠ 0
  | .float x => !rt.isZero x
  | .str s => s ≠ []
  | .arr items => !items.isEmpty
  | .obj fields => !fields.isEmpty

/-- `d.get(key) or default`. -/
def getOr (rt : Runtime F) (fields : List (Str × Value F)) (key : Str) (default : Value F) :
    Value F :=
  match fields.lookup key with
  | some v => if truthy rt v = true then v else default
  | none => default

/-- `d.get(key)`. -/
def get (fields : List (Str × Value F)) (key : Str) : Value F := (fields.lookup key).getD .null

/-- The text of a value, as a string, in an f-string. -/
def asText (rt : Runtime F) : Value F → Except Str Str
  | .str s => .ok s
  | v => rt.repr v

/-- `type(v).__name__`. -/
def typeName : Value F → String
  | .null => "NoneType"
  | .bool _ => "bool"
  | .int _ => "int"
  | .float _ => "float"
  | .str _ => "str"
  | .arr _ => "list"
  | .obj _ => "dict"

/-- The text of the `AttributeError` of `v.get`. -/
def noGet (v : Value F) : Str :=
  lit "'" ++ lit (typeName v) ++ lit "' object has no attribute 'get'"

/-! ### `MCPServer` -/

/-- `json.dumps(result, ensure_ascii=False, sort_keys=True)`. -/
def dumpsResult (rt : Runtime F) : Returned F → Except Str Str
  | .value v =>
    if depth v ≤ rt.dumpDepth then .ok (dumps rt sortedStyle v)
    else .error (lit "maximum recursion depth exceeded while encoding a JSON object")
  | .other complaint => .error complaint

/-- The result of a tool call around a text. -/
def content (text : Str) : Value F :=
  .obj [(lit "content", .arr [.obj [(lit "type", .str (lit "text")), (lit "text", .str text)]])]

/-- The `ValueError` for a name that no tool has. -/
def unknownTool (rt : Runtime F) (name : Value F) : Str :=
  match asText rt name with
  | .ok text => lit "unknown tool: " ++ text
  | .error text => text

/-- `_call_tool` (`mcp_server.py:1912-1919`). A list or a dict has no hash to be looked up by. -/
def callTool (rt : Runtime F) (tools : Tools F σ) (params : Value F) (s : σ) :
    Except Str (Value F) × σ :=
  match params with
  | .obj fields =>
    match get fields (lit "name") with
    | .arr _ => (.error (lit "unhashable type: 'list'"), s)
    | .obj _ => (.error (lit "unhashable type: 'dict'"), s)
    | .str name =>
      match tools.handlers name with
      | some tool =>
        let ran := tool (getOr rt fields (lit "arguments") (.obj [])) s
        ((ran.1.bind (dumpsResult rt)).map content, ran.2)
      | none => (.error (unknownTool rt (.str name)), s)
    | name => (.error (unknownTool rt name), s)
  | v => (.error (noGet v), s)

/-- The `initialize` branch. -/
def initializeResult (rt : Runtime F) (params : Value F) : Except Str (Value F) :=
  match params with
  | .obj fields => .ok (.obj
      [(lit "protocolVersion", getOr rt fields (lit "protocolVersion") (.str (lit "2025-03-26"))),
        (lit "capabilities", .obj [(lit "tools", .obj [])]),
        (lit "serverInfo", .obj [(lit "name", .str (lit "living-memoryv2")),
          (lit "version", .str (lit "0.1.0"))])])
  | v => .error (noGet v)

/-- The `except` clause of `handle`. -/
def tried (id : Value F) : Except Str (Value F) → Value F
  | .ok result => response id result
  | .error text => errorResponse id (-32000) text

/-- The `try` block of `handle` (`mcp_server.py:1892-1910`). -/
def dispatch (rt : Runtime F) (tools : Tools F σ) (id method params : Value F) (s : σ) :
    Value F × σ :=
  if method.isStr (lit "initialize") = true then (tried id (initializeResult rt params), s)
  else if method.isStr (lit "tools/list") = true then
    (response id (.obj [(lit "tools", tools.descriptors)]), s)
  else if method.isStr (lit "tools/call") = true then
    let called := callTool rt tools params s
    (tried id called.1, called.2)
  else if method.isStr (lit "ping") = true then (response id (.obj []), s)
  else match asText rt method with
    | .ok text => (errorResponse id (-32601) (lit "method not found: " ++ text), s)
    | .error text => (tried id (.error text), s)

/-- How `handle` ends: with a reply, with `None`, or in an exception. -/
inductive Handled (F : Type) where
  | reply (v : Value F)
  | silent
  | raised

/-- `handle` (`mcp_server.py:1886-1910`). `"id" not in message` is a membership test on a list
and a search on a string, and a `TypeError` on a number, a boolean or `None`; where it finds
something, `message["id"]` is one. -/
def handle (rt : Runtime F) (tools : Tools F σ) (message : Value F) (s : σ) : Handled F × σ :=
  match message with
  | .obj fields =>
    match fields.lookup (lit "id") with
    | none => (.silent, s)
    | some id =>
      let answered := dispatch rt tools id (get fields (lit "method"))
        (getOr rt fields (lit "params") (.obj [])) s
      (.reply answered.1, answered.2)
  | .arr items => if items.any (Value.isStr (lit "id")) = true then (.raised, s) else (.silent, s)
  | .str text => if lit "id" <:+: text then (.raised, s) else (.silent, s)
  | _ => (.raised, s)

/-! ### `run_stdio` -/

/-- `not line.strip()`. -/
def isBlank (line : Str) : Bool :=
  line.all fun
    | .char c => PyText.isSpace c
    | .surrogate _ => false

/-- The reply to a line that is no JSON. -/
def parseError (rt : Runtime F) (line : Str) : Value F :=
  errorResponse .null (-32700) (lit "parse error: " ++ rt.decodeMessage line)

/-- The body of the loop (`mcp_server.py:1925-1936`): the lines it writes, `none` where it
raises. -/
def runLine (rt : Runtime F) (tools : Tools F σ) (line : Str) (s : σ) : Option (List Str) × σ :=
  if isBlank line = true then (some [], s)
  else match loads rt line with
    | .error .decode => ((writeLine rt (parseError rt line)).map fun text => [text], s)
    | .error .raised => (none, s)
    | .ok message =>
      match handle rt tools message s with
      | (.reply v, s') => ((writeLine rt v).map fun text => [text], s')
      | (.silent, s') => (some [], s')
      | (.raised, s') => (none, s')

/-- `run_stdio` (`mcp_server.py:1922-1940`): what is written, and whether the loop came to the
end of its input. -/
def runStdio (rt : Runtime F) (tools : Tools F σ) : List Str → σ → List Str × Bool
  | [], _ => ([], true)
  | line :: rest, s =>
    match runLine rt tools line s with
    | (none, _) => ([], false)
    | (some written, s') =>
      let r := runStdio rt tools rest s'
      (written ++ r.1, r.2)

/-! ### What a line must bring for its reply to be written -/

/-- The text of a value in an f-string, or that of the exception it raises, can be encoded. -/
def Speaks (rt : Runtime F) (v : Value F) : Prop :=
  match asText rt v with
  | .ok text => Speakable rt text
  | .error text => Speakable rt text

/-- What a tool came back with can be encoded. -/
def ReturnedFits (rt : Runtime F) : Except Str (Returned F) → Prop
  | .ok (.value v) => depth v ≤ rt.dumpDepth → Speakable rt (chars v)
  | .ok (.other complaint) => Speakable rt complaint
  | .error text => Speakable rt text

/-- What a tool call puts into its reply can be encoded: the name of a tool that does not
exist, or what the tool came back with. -/
def CallFits (rt : Runtime F) (tools : Tools F σ) (params : Value F) (s : σ) : Prop :=
  match params with
  | .obj fields =>
    match get fields (lit "name") with
    | .arr _ | .obj _ => True
    | .str name =>
      match tools.handlers name with
      | some tool => ReturnedFits rt (tool (getOr rt fields (lit "arguments") (.obj [])) s).1
      | none => Speaks rt (.str name)
    | name => Speaks rt name
  | _ => True

/-- The protocol version that `initialize` echoes can be written. -/
def VersionFits (rt : Runtime F) : Value F → Prop
  | .obj fields =>
    Prints rt 2 (getOr rt fields (lit "protocolVersion") (.str (lit "2025-03-26")))
  | _ => True

/-- What the reply to a request takes from it, and from the tool it calls, can be written. -/
def RequestFits (rt : Runtime F) (tools : Tools F σ) (id method params : Value F) (s : σ) :
    Prop :=
  Prints rt 1 id ∧
    if method.isStr (lit "initialize") = true then VersionFits rt params
    else if method.isStr (lit "tools/list") = true then Prints rt 2 tools.descriptors
    else if method.isStr (lit "tools/call") = true then CallFits rt tools params s
    else if method.isStr (lit "ping") = true then True
    else Speaks rt method

/-- The condition on a line, in the state of the vault in which it is read: it is blank, no
JSON, an array or a string in which `"id"` is not found, an object without an id, or a request
that can be answered. -/
def LineFits (rt : Runtime F) (tools : Tools F σ) (line : Str) (s : σ) : Prop :=
  isBlank line = true ∨
    match loads rt line with
    | .error .decode => True
    | .error .raised => False
    | .ok (.obj fields) =>
      ∀ id, fields.lookup (lit "id") = some id →
        RequestFits rt tools id (get fields (lit "method"))
          (getOr rt fields (lit "params") (.obj [])) s
    | .ok (.arr items) => items.any (Value.isStr (lit "id")) = false
    | .ok (.str text) => ¬ lit "id" <:+: text
    | .ok _ => False

/-- Every line meets the condition in the state that the lines before it leave. -/
def LinesFit (rt : Runtime F) (tools : Tools F σ) : List Str → σ → Prop
  | [], _ => True
  | line :: rest, s => LineFits rt tools line s ∧ LinesFit rt tools rest (runLine rt tools line s).2

section Replies

variable {rt : Runtime F}

theorem speakable_lit {s : String} (h : s.toList.all (fun c => (PyChar.char c).isAscii) = true) :
    Speakable rt (lit s) := by
  apply speakable_of_ascii
  intro c hc
  obtain ⟨d, hd, rfl⟩ := List.mem_map.mp hc
  exact List.all_eq_true.mp h d hd

theorem speakable_after_lit {s : String} {text : Str}
    (h : s.toList.all (fun c => (PyChar.char c).isAscii) = true) :
    Speakable rt (lit s ++ text) ↔ Speakable rt text := by
  rw [speakable_append]
  exact and_iff_right (speakable_lit h)

theorem prints_response {id result : Value F} :
    Prints rt 0 (response id result) ↔ Prints rt 1 id ∧ Prints rt 1 result := by
  have := rt.dumpDepth_pos
  have hversion : Prints rt 1 (.str (lit "2.0") : Value F) :=
    prints_str.mpr ⟨by omega, speakable_lit (by decide)⟩
  rw [response, prints_obj]
  simp only [List.forall_mem_cons, List.not_mem_nil, false_implies, implies_true, and_true]
  constructor
  · rintro ⟨-, -, hid, hresult⟩
    exact ⟨hid.2, hresult.2⟩
  · rintro ⟨hid, hresult⟩
    exact ⟨by omega, ⟨speakable_lit (by decide), hversion⟩, ⟨speakable_lit (by decide), hid⟩,
      speakable_lit (by decide), hresult⟩

theorem prints_errorResponse {id : Value F} {code : Int} {message : Str} :
    Prints rt 0 (errorResponse id code message) ↔ Prints rt 1 id ∧ Speakable rt message := by
  have := rt.dumpDepth_pos
  have hversion : Prints rt 1 (.str (lit "2.0") : Value F) :=
    prints_str.mpr ⟨by omega, speakable_lit (by decide)⟩
  rw [errorResponse, prints_obj]
  simp only [List.forall_mem_cons, List.not_mem_nil, false_implies, implies_true, and_true,
    prints_obj, prints_int, prints_str]
  constructor
  · rintro ⟨-, -, hid, -, -, -, hmessage⟩
    exact ⟨hid.2, hmessage.2.2⟩
  · rintro ⟨hid, hmessage⟩
    exact ⟨by omega, ⟨speakable_lit (by decide), by omega, speakable_lit (by decide)⟩,
      ⟨speakable_lit (by decide), hid⟩, speakable_lit (by decide), by omega,
      ⟨speakable_lit (by decide), by omega⟩, speakable_lit (by decide), by omega, hmessage⟩

theorem prints_content {text : Str} :
    Prints rt 1 (content text : Value F) ↔ Speakable rt text := by
  have := rt.dumpDepth_pos
  rw [content]
  simp only [prints_obj, prints_arr, List.forall_mem_cons, List.not_mem_nil, false_implies,
    implies_true, and_true, prints_str]
  constructor
  · rintro ⟨-, -, -, -, -, -, htext⟩
    exact htext.2
  · intro htext
    exact ⟨by omega, speakable_lit (by decide), by omega, by omega,
      ⟨speakable_lit (by decide), by omega, speakable_lit (by decide)⟩,
      speakable_lit (by decide), by omega, htext⟩

theorem prints_initializeResult {fields : List (Str × Value F)} {result : Value F}
    (h : initializeResult rt (.obj fields) = .ok result) :
    Prints rt 1 result ↔ VersionFits rt (.obj fields) := by
  have := rt.dumpDepth_pos
  cases h
  rw [VersionFits]
  simp only [prints_obj, List.forall_mem_cons, List.not_mem_nil, false_implies, implies_true,
    and_true, prints_str]
  constructor
  · rintro ⟨-, ⟨-, hversion⟩, -⟩
    exact hversion
  · intro hversion
    exact ⟨by omega, ⟨speakable_lit (by decide), hversion⟩,
      ⟨speakable_lit (by decide), by omega, speakable_lit (by decide), by omega⟩,
      speakable_lit (by decide), by omega,
      ⟨speakable_lit (by decide), by omega, speakable_lit (by decide)⟩,
      speakable_lit (by decide), by omega, speakable_lit (by decide)⟩

theorem speakable_noGet (v : Value F) : Speakable rt (noGet v) := by
  have htype : Speakable rt (lit (typeName v)) := by
    apply speakable_lit
    cases v <;> simp only [typeName] <;> decide
  rw [noGet, speakable_append, speakable_append]
  exact ⟨⟨speakable_lit (by decide), htype⟩, speakable_lit (by decide)⟩

/-- What the `try` block gives can be written. -/
def Tried (rt : Runtime F) : Except Str (Value F) → Prop
  | .ok result => Prints rt 1 result
  | .error text => Speakable rt text

theorem prints_tried {id : Value F} {r : Except Str (Value F)} :
    Prints rt 0 (tried id r) ↔ Prints rt 1 id ∧ Tried rt r := by
  cases r with
  | ok result => exact prints_response
  | error text => exact prints_errorResponse

theorem tried_initialize {params : Value F} :
    Tried rt (initializeResult rt params) ↔ VersionFits rt params := by
  cases params with
  | obj fields => exact prints_initializeResult rfl
  | _ => exact iff_of_true (speakable_noGet _) trivial

theorem tried_unknownTool {name : Value F} :
    Tried rt (.error (unknownTool rt name)) ↔ Speaks rt name := by
  unfold Tried unknownTool Speaks
  cases asText rt name with
  | ok text => exact speakable_after_lit (by decide)
  | error text => exact Iff.rfl

theorem tried_dumpsResult {r : Except Str (Returned F)} :
    Tried rt ((r.bind (dumpsResult rt)).map content) ↔ ReturnedFits rt r := by
  cases r with
  | error text => exact Iff.rfl
  | ok returned =>
    cases returned with
    | other complaint => exact Iff.rfl
    | value v =>
      simp only [Except.bind, dumpsResult, ReturnedFits]
      by_cases hdepth : depth v ≤ rt.dumpDepth
      · rw [if_pos hdepth]
        simp only [Except.map, Tried, prints_content, speakable_dumps isPrintable_sortedStyle]
        exact ⟨fun h _ => h, fun h => h hdepth⟩
      · rw [if_neg hdepth]
        exact iff_of_true (speakable_lit (by decide)) fun h => absurd h hdepth

variable {tools : Tools F σ}

theorem tried_callTool {params : Value F} {s : σ} :
    Tried rt (callTool rt tools params s).1 ↔ CallFits rt tools params s := by
  cases params with
  | obj fields =>
    simp only [callTool, CallFits]
    cases get fields (lit "name") with
    | arr items => exact iff_of_true (speakable_lit (by decide)) trivial
    | obj entries => exact iff_of_true (speakable_lit (by decide)) trivial
    | str name =>
      simp only
      cases tools.handlers name with
      | none => exact tried_unknownTool
      | some tool => exact tried_dumpsResult
    | _ => exact tried_unknownTool
  | _ => exact iff_of_true (speakable_noGet _) trivial

/-- The reply to a request can be written exactly when what it takes from the request and its
tool can. -/
theorem prints_dispatch {id method params : Value F} {s : σ} :
    Prints rt 0 (dispatch rt tools id method params s).1 ↔
      RequestFits rt tools id method params s := by
  have hdepth := rt.dumpDepth_pos
  unfold dispatch RequestFits
  split
  · rw [prints_tried, tried_initialize]
  · split
    · rw [prints_response, prints_obj]
      simp only [List.forall_mem_cons, List.not_mem_nil, false_implies, implies_true, and_true]
      constructor
      · rintro ⟨hid, -, -, htools⟩
        exact ⟨hid, htools⟩
      · rintro ⟨hid, htools⟩
        exact ⟨hid, by omega, speakable_lit (by decide), htools⟩
    · split
      · rw [prints_tried, tried_callTool]
      · split
        · rw [prints_response, prints_obj]
          constructor
          · exact fun h => ⟨h.1, trivial⟩
          · exact fun h => ⟨h.1, by omega, fun _ hmem => absurd hmem List.not_mem_nil⟩
        · unfold Speaks
          cases asText rt method with
          | ok text => rw [prints_errorResponse, speakable_after_lit (by decide)]
          | error text =>
            show Prints rt 0 (tried id (.error text)) ↔ Prints rt 1 id ∧ Tried rt (.error text)
            exact prints_tried

end Replies

/-! ### The run -/

/-- A text that is one line. -/
def IsLine (text : Str) : Prop := ∃ body, text = body ++ lit "\n" ∧ PyChar.char '\n' ∉ body

/-- What has to be written for a line: one response that carries its id for an object with one,
one parse error for what is no JSON, and nothing else. -/
def Answers (rt : Runtime F) (line : Str) (written : List Str) : Prop :=
  if isBlank line = true then written = []
  else match loads rt line with
    | .error .decode => ∃ text, written = [text] ∧ IsLine text ∧
        text = dumps rt compact (parseError rt line) ++ lit "\n"
    | .ok (.obj fields) =>
      match fields.lookup (lit "id") with
      | none => written = []
      | some id => ∃ text last, written = [text] ∧ IsLine text ∧
          text = dumps rt compact
            (.obj [(lit "jsonrpc", .str (lit "2.0")), (lit "id", id), last]) ++ lit "\n"
    | _ => written = []

/-- Every line has been consumed, and the output is what they call for, in their order. -/
def Robust (rt : Runtime F) (lines : List Str) (r : List Str × Bool) : Prop :=
  r.2 = true ∧ ∃ written, List.Forall₂ (Answers rt) lines written ∧ r.1 = written.flatten

/-- How many lines a line calls for. -/
def responses (rt : Runtime F) (line : Str) : Nat :=
  if isBlank line = true then 0
  else match loads rt line with
    | .error .decode => 1
    | .ok (.obj fields) => if (fields.lookup (lit "id")).isSome = true then 1 else 0
    | _ => 0

theorem Answers.length {rt : Runtime F} {line : Str} {written : List Str}
    (h : Answers rt line written) : written.length = responses rt line := by
  unfold Answers at h
  unfold responses
  split at h
  · rename_i hblank
    rw [if_pos hblank, h, List.length_nil]
  · rename_i hblank
    rw [if_neg hblank]
    cases hloads : loads rt line with
    | error flaw =>
      rw [hloads] at h
      cases flaw with
      | decode =>
        obtain ⟨text, rfl, -⟩ := h
        rfl
      | raised =>
        subst h
        rfl
    | ok message =>
      rw [hloads] at h
      cases message with
      | obj fields =>
        simp only at h ⊢
        split at h
        · rename_i hid
          rw [h, hid]
          rfl
        · rename_i id hid
          obtain ⟨text, last, rfl, -⟩ := h
          rw [hid]
          rfl
      | _ =>
        subst h
        rfl

section Run

variable {rt : Runtime F} {tools : Tools F σ}

theorem isLine_of_writeLine {v : Value F} {text : Str} (h : writeLine rt v = some text) :
    IsLine text :=
  ⟨_, (writeLine_eq_some.mp h).2, newline_notMem_dumps isPrintable_compact v⟩

theorem writeLine_isSome {v : Value F} : (∃ text, writeLine rt v = some text) ↔ Prints rt 0 v := by
  constructor
  · rintro ⟨text, h⟩
    exact (writeLine_eq_some.mp h).1
  · intro h
    exact ⟨_, writeLine_eq_some.mpr ⟨h, rfl⟩⟩

/-- Every reply of `dispatch` carries the id of its request. -/
theorem dispatch_id (id method params : Value F) (s : σ) :
    ∃ last, (dispatch rt tools id method params s).1 =
      .obj [(lit "jsonrpc", .str (lit "2.0")), (lit "id", id), last] := by
  have htried (r : Except Str (Value F)) : ∃ last, tried id r =
      .obj [(lit "jsonrpc", .str (lit "2.0")), (lit "id", id), last] := by
    cases r with
    | ok result => exact ⟨_, rfl⟩
    | error text => exact ⟨_, rfl⟩
  unfold dispatch
  split
  · exact htried _
  · split
    · exact ⟨_, rfl⟩
    · split
      · exact htried _
      · split
        · exact ⟨_, rfl⟩
        · split
          · exact ⟨_, rfl⟩
          · exact htried (.error _)

/-- What is written for a line is what the line calls for. -/
theorem answers_of_runLine {line : Str} {s : σ} {written : List Str}
    (h : (runLine rt tools line s).1 = some written) : Answers rt line written := by
  unfold runLine at h
  unfold Answers
  split at h
  · rename_i hblank
    rw [if_pos hblank]
    exact (Option.some.inj h).symm
  · rename_i hblank
    rw [if_neg hblank]
    cases hloads : loads rt line with
    | error flaw =>
      rw [hloads] at h
      cases flaw with
      | raised => cases h
      | decode =>
        obtain ⟨text, htext, rfl⟩ := Option.map_eq_some_iff.mp h
        exact ⟨text, rfl, isLine_of_writeLine htext, (writeLine_eq_some.mp htext).2⟩
    | ok message =>
      rw [hloads] at h
      cases message with
      | obj fields =>
        simp only [handle] at h ⊢
        cases hid : fields.lookup (lit "id") with
        | none =>
          rw [hid] at h
          exact (Option.some.inj h).symm
        | some id =>
          rw [hid] at h
          obtain ⟨text, htext, rfl⟩ := Option.map_eq_some_iff.mp h
          obtain ⟨last, hlast⟩ := @dispatch_id _ _ rt tools id
            (get fields (lit "method")) (getOr rt fields (lit "params") (.obj [])) s
          rw [hlast] at htext
          exact ⟨text, last, rfl, isLine_of_writeLine htext, (writeLine_eq_some.mp htext).2⟩
      | arr items =>
        simp only [handle] at h
        split at h
        · rename_i hhandled
          split at hhandled <;> cases hhandled
        · exact (Option.some.inj h).symm
        · cases h
      | str text =>
        simp only [handle] at h
        split at h
        · rename_i hhandled
          split at hhandled <;> cases hhandled
        · exact (Option.some.inj h).symm
        · cases h
      | _ => cases h

/-- The loop gets past a line exactly when the line meets the condition. -/
theorem runLine_isSome {line : Str} {s : σ} :
    (∃ written, (runLine rt tools line s).1 = some written) ↔ LineFits rt tools line s := by
  have hwrite (v : Value F) : (∃ written, (writeLine rt v).map (fun text => [text]) = some written) ↔
      Prints rt 0 v := by
    rw [← writeLine_isSome]
    constructor
    · rintro ⟨written, h⟩
      obtain ⟨text, htext, -⟩ := Option.map_eq_some_iff.mp h
      exact ⟨text, htext⟩
    · rintro ⟨text, htext⟩
      exact ⟨[text], by rw [htext]; rfl⟩
  have hnone : ¬ ∃ written : List Str, (none : Option (List Str)) = some written := by
    rintro ⟨written, h⟩
    cases h
  unfold runLine LineFits
  split
  · rename_i hblank
    exact iff_of_true ⟨[], rfl⟩ (.inl hblank)
  · rename_i hblank
    rw [or_iff_right hblank]
    cases loads rt line with
    | error flaw =>
      cases flaw with
      | raised => exact iff_of_false hnone id
      | decode =>
        have := rt.dumpDepth_pos
        refine iff_of_true ((hwrite _).mpr (prints_errorResponse.mpr ⟨?_, ?_⟩)) trivial
        · simp only [Prints, depth, chars]
          exact ⟨by omega, fun _ hmem => absurd hmem List.not_mem_nil⟩
        · rw [speakable_after_lit (by decide)]
          exact speakable_of_ascii (rt.decodeMessage_ascii line)
    | ok message =>
      cases message with
      | obj fields =>
        simp only [handle]
        cases hid : fields.lookup (lit "id") with
        | none => exact iff_of_true ⟨[], rfl⟩ fun _ h => by cases h
        | some id =>
          simp only [hwrite, prints_dispatch, Option.some.injEq, forall_eq']
      | arr items =>
        simp only [handle]
        cases hfound : items.any (Value.isStr (lit "id")) with
        | true => exact iff_of_false hnone Bool.noConfusion
        | false => exact iff_of_true ⟨[], rfl⟩ rfl
      | str text =>
        simp only [handle]
        by_cases hfound : lit "id" <:+: text
        · rw [if_pos hfound]
          exact iff_of_false hnone fun h => h hfound
        · rw [if_neg hfound]
          exact iff_of_true ⟨[], rfl⟩ hfound
      | _ => exact iff_of_false hnone id

end Run

/-- The loop gets through a sequence of lines, answering each as it has to, exactly when every
line meets the condition. -/
theorem robust_iff (rt : Runtime F) (tools : Tools F σ) (lines : List Str) (s : σ) :
    Robust rt lines (runStdio rt tools lines s) ↔ LinesFit rt tools lines s := by
  induction lines generalizing s with
  | nil => exact iff_of_true ⟨rfl, [], .nil, rfl⟩ trivial
  | cons line rest ih =>
    rw [LinesFit, ← ih, ← runLine_isSome, runStdio]
    cases hline : runLine rt tools line s with
    | mk result s' =>
      cases result with
      | none =>
        refine iff_of_false ?_ ?_
        · rintro ⟨hend, -⟩
          cases hend
        · rintro ⟨⟨written, h⟩, -⟩
          cases h
      | some written =>
        have hanswer : Answers rt line written :=
          @answers_of_runLine _ _ rt tools line s _ (by rw [hline])
        constructor
        · rintro ⟨hend, all, hall, hflat⟩
          refine ⟨⟨written, rfl⟩, hend, ?_⟩
          cases hall with
          | cons hfirst hrest =>
            rename_i first others
            refine ⟨others, hrest, ?_⟩
            have hlength := hanswer.length.trans hfirst.length.symm
            exact (List.append_inj hflat hlength).2
        · rintro ⟨-, hend, others, hrest, hflat⟩
          refine ⟨hend, written :: others, .cons hanswer hrest, ?_⟩
          rw [List.flatten_cons, ← hflat]

/-- An interpreter with one floating-point number, whose `stdout` is UTF-8. -/
def utf8Runtime : Runtime Unit where
  floats := ⟨fun _ => "0.0".toList, fun _ => (), fun _ => by decide, fun _ => rfl⟩
  isZero := fun _ => true
  loadDepth := 1000
  dumpDepth := 1000
  tooManyDigits := fun n => 4300 < n
  repr := fun _ => .ok (lit "None")
  decodeMessage := fun _ => lit "Expecting value: line 1 column 1 (char 0)"
  encodes := fun
    | .char _ => true
    | .surrogate _ => false
  decodeMessage_ascii := fun _ => by
    have hall : (lit "Expecting value: line 1 column 1 (char 0)").all PyChar.isAscii = true := by
      decide
    exact List.all_eq_true.mp hall
  encodes_ascii := fun c hc => by
    cases c with
    | char c => rfl
    | surrogate n => cases hc
  dumpDepth_pos := by decide

/-- A server without tools. -/
def noTools : Tools Unit Unit where
  handlers := fun _ => none
  descriptors := .arr []

/-- The line `5` is JSON, and `"id" not in 5` is a `TypeError`: the ping after it gets no answer. -/
theorem number_ends_loop :
    ¬ Robust utf8Runtime [lit "5\n", lit "\x7b\"id\":1,\"method\":\"ping\"\x7d\n"]
      (runStdio utf8Runtime noTools [lit "5\n", lit "\x7b\"id\":1,\"method\":\"ping\"\x7d\n"] ()) := by
  rintro ⟨hend, -⟩
  exact absurd hend (by decide +kernel)

/-- A ping is answered. -/
example : runStdio utf8Runtime noTools [lit "\x7b\"id\":1,\"method\":\"ping\"\x7d\n"] () =
    ([lit "\x7b\"jsonrpc\":\"2.0\",\"id\":1,\"result\":\x7b\x7d\x7d\n"], true) := by
  decide +kernel

end AgentMemory.Mcp
