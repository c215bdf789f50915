import ReleaseAudit.Text.Blank

/-!
# Document addresses

Editors name documents by URI references: an optional scheme, an optional
authority after two slashes, a path, and optional query and fragment.
-/

namespace ReleaseAudit.Server.Uri

set_option autoImplicit false

def isHexDigit (character : Char) : Bool :=
  character.isDigit || ('a' ≤ character && character ≤ 'f') ||
    ('A' ≤ character && character ≤ 'F')

def isUnreserved (character : Char) : Bool :=
  character.isAlphanum || "-._~".toList.contains character

def isDelimiter (character : Char) : Bool :=
  "!$&'()*+,;=".toList.contains character

def isPathCharacter (character : Char) : Bool :=
  isUnreserved character || isDelimiter character || ":@/".toList.contains character

def isQueryCharacter (character : Char) : Bool :=
  isPathCharacter character || character == '?'

def isNameCharacter (character : Char) : Bool :=
  isUnreserved character || isDelimiter character

/-- Allowed characters and percent signs that two hexadecimal digits follow. -/
def consistsOf (allowed : Char → Bool) : List Char → Bool
  | [] => true
  | '%' :: high :: low :: rest =>
      isHexDigit high && isHexDigit low && consistsOf allowed rest
  | character :: rest => allowed character && consistsOf allowed rest

def splitAt (mark : Char) (characters : List Char) : List Char × Option (List Char) :=
  match characters.dropWhile (· != mark) with
  | [] => (characters, none)
  | _ :: after => (characters.takeWhile (· != mark), some after)

def isScheme : List Char → Bool
  | first :: rest =>
      first.isAlpha && rest.all fun character =>
        character.isAlphanum || "+-.".toList.contains character
  | [] => false

def isHostNumber (number : Option (List Char)) : Bool :=
  number.all fun digits => digits.all Char.isDigit

def isOctet (digits : List Char) : Bool :=
  !digits.isEmpty && digits.length ≤ 3 && digits.all Char.isDigit &&
    (digits.length == 1 || digits.head? != some '0') &&
    (digits.foldl (fun value digit => 10 * value + (digit.toNat - '0'.toNat)) 0) ≤ 255

def isIPv4 (characters : List Char) : Bool :=
  let octets := Text.pieces '.' characters
  octets.length == 4 && octets.all isOctet

def isGroup (digits : List Char) : Bool :=
  !digits.isEmpty && digits.length ≤ 4 && digits.all isHexDigit

def countGroups? (characters : List Char) : Option Nat :=
  if characters.isEmpty then some 0
  else
    let parts := Text.pieces ':' characters
    if parts.all isGroup then some parts.length
    else if parts.dropLast.all isGroup && parts.getLast?.any isIPv4 then some (parts.length + 1)
    else none

def splitElision? : List Char → Option (List Char × List Char)
  | ':' :: ':' :: rest => some ([], rest)
  | character :: rest => (splitElision? rest).map fun (before, after) =>
    (character :: before, after)
  | [] => none

/-- Eight groups, or fewer where two colons stand for the missing ones. Only groups after the two
colons may end in an IPv4 address. -/
def isIPv6 (characters : List Char) : Bool :=
  match splitElision? characters with
  | none => countGroups? characters == some 8
  | some (before, after) =>
      (before.isEmpty || (Text.pieces ':' before).all isGroup) &&
        match countGroups? before, countGroups? after with
        | some first, some second => first + second ≤ 7
        | _, _ => false

def isFutureAddress : List Char → Bool
  | mark :: rest =>
      let (version, address) := splitAt '.' rest
      (mark == 'v' || mark == 'V') && !version.isEmpty && version.all isHexDigit &&
        address.any fun address =>
          !address.isEmpty && address.all fun character =>
            isNameCharacter character || character == ':'
  | [] => false

def isHost (characters : List Char) : Bool :=
  match characters with
  | '[' :: rest =>
      let (address, after) := splitAt ']' rest
      (isIPv6 address || isFutureAddress address) &&
        match after with
        | some [] => true
        | some (':' :: number) => isHostNumber (some number)
        | _ => false
  | _ =>
      let (name, number) := splitAt ':' characters
      consistsOf isNameCharacter name && isHostNumber number

def isAuthority (characters : List Char) : Bool :=
  match splitAt '@' characters with
  | (host, none) => isHost host
  | (user, some host) =>
      consistsOf (fun character => isNameCharacter character || character == ':') user &&
        isHost host

def isHierarchy : List Char → Bool
  | '/' :: '/' :: rest =>
      isAuthority (rest.takeWhile (· != '/')) &&
        consistsOf isPathCharacter (rest.dropWhile (· != '/'))
  | characters => consistsOf isPathCharacter characters

/-- What precedes query and fragment. Without a scheme the first segment has no colon. -/
def isBody (characters : List Char) : Bool :=
  match splitAt ':' (characters.takeWhile (· != '/')) with
  | (_, none) => isHierarchy characters
  | (scheme, some _) => isScheme scheme && isHierarchy (characters.drop (scheme.length + 1))

def isReference (text : String) : Bool :=
  let (main, fragment) := splitAt '#' text.toList
  let (body, query) := splitAt '?' main
  isBody body && query.all (consistsOf isQueryCharacter) &&
    fragment.all (consistsOf isQueryCharacter)

end ReleaseAudit.Server.Uri
