import SessionAttributes.Json.Token

namespace SessionAttributes.Json

/-- An open container: the items so far in reverse, or the members so far and the key whose value
is being read. -/
inductive Open where
  | array (items : List Json)
  | object (members : List (String × Json)) (key : String)

inductive Stage where
  | value
  /-- An item, or the end of an array that has none yet. -/
  | item (first : Bool)
  | key (first : Bool)
  | colon (key : String)
  | more
  | complete (v : Json)

/-- The open containers stand on a stack, innermost first, so depth is the height of the stack. -/
structure Reader where
  stack : List Open
  stage : Stage

namespace Reader

def initial : Reader := ⟨[], .value⟩

def place (v : Json) : List Open → Reader
  | [] => ⟨[], .complete v⟩
  | .array items :: rest => ⟨.array (v :: items) :: rest, .more⟩
  | .object members key :: rest => ⟨.object (insertMember key v members) key :: rest, .more⟩

def close : List Open → Reader
  | [] => initial
  | .array items :: rest => place (.array items.reverse) rest
  | .object members _ :: rest => place (.object members) rest

def enter (container : Open) (stage : Stage) (stack : List Open) : Except Fault Reader :=
  if stack.length < depthLimit then .ok ⟨container :: stack, stage⟩ else .error .tooDeep

def takeValue (stack : List Open) : Token → Except Fault Reader
  | .null => .ok (place .null stack)
  | .bool b => .ok (place (.bool b) stack)
  | .number n => .ok (place (.number n) stack)
  | .text s => .ok (place (.string s) stack)
  | .openArray => enter (.array []) (.item true) stack
  | .openObject => enter (.object [] "") (.key true) stack
  | .broken _ fault => .error fault
  | .closeArray | .closeObject | .comma | .colon => .error .expectedValue

def takeMore (stack : List Open) (token : Token) : Except Fault Reader :=
  match stack, token with
  | .array _ :: _, .comma => .ok ⟨stack, .item false⟩
  | .array _ :: _, .closeArray => .ok (close stack)
  | .array _ :: _, _ => .error .expectedListEnd
  | .object _ _ :: _, .comma => .ok ⟨stack, .key false⟩
  | .object _ _ :: _, .closeObject => .ok (close stack)
  | .object _ _ :: _, _ => .error .expectedObjectEnd
  | [], _ => .error .trailingCharacters

def takeKey (stack : List Open) (first : Bool) : Token → Except Fault Reader
  | .text s => .ok ⟨stack, .colon s⟩
  | .closeObject => if first then .ok (close stack) else .error .trailingComma
  | .broken true fault => .error fault
  | _ => .error .keyNotString

def setKey (key : String) : List Open → List Open
  | .object members _ :: rest => .object members key :: rest
  | stack => stack

def step (r : Reader) (token : Token) : Except Fault Reader :=
  match r.stage, token with
  | .value, token => takeValue r.stack token
  | .item first, .closeArray => if first then .ok (close r.stack) else .error .trailingComma
  | .item _, token => takeValue r.stack token
  | .key first, token => takeKey r.stack first token
  | .colon key, .colon => .ok ⟨setKey key r.stack, .value⟩
  | .colon _, _ => .error .expectedColon
  | .more, token => takeMore r.stack token
  | .complete _, _ => .error .trailingCharacters

/-- The value, or what is missing when the text ends here. -/
def finish (r : Reader) : Except Fault Json :=
  match r.stage with
  | .complete v => .ok v
  | .value | .item false | .key false => .error .eofInValue
  | .item true => .error .eofInList
  | .key true | .colon _ => .error .eofInObject
  | .more =>
    match r.stack with
    | .object _ _ :: _ => .error .eofInObject
    | _ => .error .eofInList

def run : Reader → List Token → Except Fault Json
  | r, [] => r.finish
  | r, token :: rest =>
    match r.step token with
    | .ok next => run next rest
    | .error fault => .error fault

def taken : Reader → List Token → Nat
  | _, [] => 0
  | r, token :: rest =>
    match r.step token with
    | .ok next => taken next rest + 1
    | .error _ => 0

end Reader

def read (bytes : Bytes) : Except Refusal Json :=
  (Reader.initial.run (tokens bytes)).mapError fun fault =>
    refuse bytes (Reader.initial.taken (tokens bytes)) fault

/-- The value of a text, null for a text that is refused. -/
def ofText (s : String) : Json := (read (Bytes.ofString s)).toOption.getD .null

end SessionAttributes.Json
