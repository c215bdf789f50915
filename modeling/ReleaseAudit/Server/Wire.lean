import ReleaseAudit.Json.Reader
import ReleaseAudit.Server.Session
import ReleaseAudit.Server.Uri
import ReleaseAudit.Text.Blank

/-!
# Messages on the wire

The decoder with which the program serves an editor, and how replies are
written. A message with a method and an identifier is a request, one with an
identifier alone is a response, and one with a method alone is a notification.
Entries that nobody asks for are ignored, and an entry that may be absent may
also be null. Each message is preceded by header lines that give its length in
bytes and by an empty line.
-/

namespace ReleaseAudit.Server

set_option autoImplicit false

def isInt32 (value : Int) : Bool :=
  -2147483648 ≤ value && value ≤ 2147483647

def isUInt32 (value : Int) : Bool :=
  0 ≤ value && value ≤ 4294967295

namespace RequestId

def ofJson? : Json → Option RequestId
  | .number value => if isInt32 value then some (number value) else none
  | .string value => some (text value)
  | _ => none

def toJson : RequestId → Json
  | number value => .number value
  | text value => .string value

end RequestId

namespace Message

def isResponseError : Json → Bool
  | .null => true
  | error =>
      match error.get? "code", error.get? "message" with
      | some (.number code), some (.string _) => isInt32 code
      | _, _ => false

def ofJson? (json : Json) : Option Message :=
  let params := (json.get? "params").getD .null
  match (json.get? "id").bind RequestId.ofJson?, (json.get? "method").bind Json.text? with
  | some id, some method => some (request id method params)
  | some _, none =>
      if isResponseError ((json.get? "error").getD .null) then some response else none
  | none, some method => some (notification method params)
  | none, none => none

end Message

namespace Params

def entry (json : Json) (key : String) : Json :=
  (json.get? key).getD .null

def isAbsentOr (test : Json → Bool) (json : Json) (key : String) : Bool :=
  match entry json key with
  | .null => true
  | value => test value

def isText : Json → Bool
  | .string _ => true
  | _ => false

def isObject : Json → Bool
  | .object _ => true
  | _ => false

def isNatural32 : Json → Bool
  | .number value => isUInt32 value
  | _ => false

def isInteger32 : Json → Bool
  | .number value => isInt32 value
  | _ => false

def isUri : Json → Bool
  | .string text => Uri.isReference text
  | _ => false

def uri? (document : Json) : Option String :=
  match entry document "uri" with
  | .string text => if Uri.isReference text then some text else none
  | _ => none

def versionedUri? (document : Json) : Option String :=
  if isInteger32 (entry document "version") then uri? document else none

def isPosition (json : Json) : Bool :=
  isNatural32 (entry json "line") && isNatural32 (entry json "character")

def isRange (json : Json) : Bool :=
  isPosition (entry json "start") && isPosition (entry json "end")

/-- Text of a change; the range it was made in is only checked. -/
def changeText? (change : Json) : Option String :=
  if isAbsentOr isRange change "range" && isAbsentOr isNatural32 change "rangeLength" then
    (entry change "text").text?
  else none

def opened? (params : Json) : Option Event :=
  let document := entry params "textDocument"
  match versionedUri? document, entry document "languageId", entry document "text" with
  | some uri, .string _, .string text => some (.opened uri text)
  | _, _, _ => none

def changed? (params : Json) : Option Event :=
  match versionedUri? (entry params "textDocument"), entry params "contentChanges" with
  | some uri, .array changes => (changes.mapM changeText?).map (.changed uri)
  | _, _ => none

def saved? (params : Json) : Option Event :=
  match uri? (entry params "textDocument"), entry params "text" with
  | some uri, .null => some (.saved uri none)
  | some uri, .string text => some (.saved uri (some text))
  | _, _ => none

def closed? (params : Json) : Option Event :=
  (uri? (entry params "textDocument")).map .closed

def isTrace (json : Json) : Bool :=
  match json with
  | .string text => ["off", "messages", "verbose"].contains text
  | _ => false

def isToken : Json → Bool
  | .string _ => true
  | json => isInteger32 json

def isFolder (json : Json) : Bool :=
  isUri (entry json "uri") && isText (entry json "name")

def isFolders : Json → Bool
  | .array folders => folders.all isFolder
  | _ => false

def isClient (json : Json) : Bool :=
  isObject json && isText (entry json "name") && isAbsentOr isText json "version"

def isCapabilities (json : Json) : Bool :=
  isObject json &&
    ["workspace", "textDocument", "notebookDocument", "window", "general"].all
      (isAbsentOr isObject json)

def isInitialize (params : Json) : Bool :=
  isCapabilities (entry params "capabilities") && isAbsentOr isNatural32 params "processId" &&
    isAbsentOr isText params "rootPath" && isAbsentOr isUri params "rootUri" &&
    isAbsentOr isTrace params "trace" && isAbsentOr isFolders params "workspaceFolders" &&
    isAbsentOr isClient params "clientInfo" && isAbsentOr isText params "locale" &&
    isAbsentOr isToken params "workDoneToken"

end Params

namespace Incoming

def ofEvent? : Option Event → Incoming
  | some found => .event found
  | none => .malformed

def ofNotification (method : String) (params : Json) : Incoming :=
  match method with
  | "textDocument/didOpen" => ofEvent? (Params.opened? params)
  | "textDocument/didChange" => ofEvent? (Params.changed? params)
  | "textDocument/didSave" => ofEvent? (Params.saved? params)
  | "textDocument/didClose" => ofEvent? (Params.closed? params)
  | _ => .ignored

end Incoming

def Decoder.ofJson : Decoder :=
  ⟨Message.ofJson?, Incoming.ofNotification, Params.isInitialize⟩

namespace Reply

def capabilities : Json :=
  .object
    [("capabilities", .object
      [("textDocumentSync", .object
        [("openClose", .boolean true), ("change", .number 1),
          ("save", .object [("includeText", .boolean true)])])])]

def describeCharacter (character : Char) : List Char :=
  if character = '"' then ['\\', '"']
  else if character = '\\' then ['\\', '\\']
  else if character = '\n' then ['\\', 'n']
  else if character = '\r' then ['\\', 'r']
  else if character = '\t' then ['\\', 't']
  else if character = '\x00' then ['\\', '0']
  else if character.toNat < 0x20 || character.toNat = 0x7f then
    ['\\', 'u', '\x7b'] ++ Nat.toDigits 16 character.toNat ++ ['\x7d']
  else [character]

def describeText (text : String) : String :=
  String.ofList ('"' :: text.toList.flatMap describeCharacter ++ ['"'])

def describeValue : Json → String
  | .null => "Null"
  | .boolean true => "Bool(true)"
  | .boolean false => "Bool(false)"
  | .number value => "Number(" ++ toString value ++ ")"
  | .decimal written => "Number(" ++ written ++ ")"
  | .string text => "String(" ++ describeText text ++ ")"
  | .array elements => "Array [" ++ String.intercalate ", " (describeAll elements) ++ "]"
  | .object entries =>
      "Object \x7b" ++
        String.intercalate ", "
          ((Json.sortEntries (describeEntries entries)).map fun entry =>
            describeText entry.1 ++ ": " ++ entry.2) ++ "\x7d"
where
  describeAll : List Json → List String
    | [] => []
    | json :: rest => describeValue json :: describeAll rest
  describeEntries : List (String × Json) → List (String × String)
    | [] => []
    | (key, json) :: rest => (key, describeValue json) :: describeEntries rest

def describeId : RequestId → String
  | .number value => "RequestId(I32(" ++ toString value ++ "))"
  | .text value => "RequestId(String(" ++ describeText value ++ "))"

def describeRequest (id : RequestId) (method : String) (params : Json) : String :=
  "Request \x7b id: " ++ describeId id ++ ", method: " ++ describeText method ++ ", params: " ++
    describeValue params ++ " \x7d"

def envelope (entries : List (String × Json)) : Json :=
  .object (("jsonrpc", .string "2.0") :: entries)

def answer (id : RequestId) (result : Json) : Json :=
  envelope [("id", id.toJson), ("result", result)]

def refusal (id : RequestId) (code : Int) (message : String) : Json :=
  envelope
    [("id", id.toJson),
      ("error", .object [("code", .number code), ("message", .string message)])]

def publicationJson (publication : Publication) : Json :=
  .object
    [("uri", .string publication.uri),
      ("diagnostics", .array (publication.diagnostics.map Report.EditorDiagnostic.toJson))]

def toJson : Reply → Json
  | initialized id => answer id capabilities
  | early id method params =>
      refusal id (-32002) ("expected initialize request, got " ++ describeRequest id method params)
  | unsupported id method => refusal id (-32601) ("unsupported request: " ++ method)
  | stopped id => answer id .null
  | published publication =>
      envelope
        [("method", .string "textDocument/publishDiagnostics"),
          ("params", publicationJson publication)]

end Reply

namespace Frame

def lengthHeader : String := "content-length"

def contentLength? (line : String) : Option Nat :=
  match Text.splitFirst? ':' line with
  | some (name, value) =>
      if name.map Char.toLower == lengthHeader then (Text.trim value).toNat? else none
  | none => none

def isHeaderEnd (line : String) : Bool :=
  (Text.trim line).isEmpty

def ofMessage (message : Json) : String :=
  let content := message.compact
  "Content-Length: " ++ toString content.utf8ByteSize ++ "\r\n\r\n" ++ content

def message (content : String) : Json :=
  (Json.parse? content).getD .null

end Frame

end ReleaseAudit.Server
