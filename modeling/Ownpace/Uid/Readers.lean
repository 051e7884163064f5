/-
Ownpace/Uid/Readers.lean

The UID of a calendar object or a card, as it is read in five places: by the two
DAV sources (`caldav-source.ts`, `carddav-source.ts`), by `extractUid` of
`dav-multistatus.ts`, by `firstUid` of `orchestration.ts`, and by the writer of
JMAP contacts.

Each is a search for the start of a line (`uidBy`), after its own unfolding or
none.  `PlainUid` is how an object's UID has to be written for all of them to
read it.
-/
import Ownpace.Keys.NaturalKey
import Ownpace.Mail.Header
import Ownpace.Uid.Scan

namespace Ownpace.Uid

open Keys Mail Scan

/-! ### The patterns -/

def UID : List Char := ['u', 'i', 'd']

/-- `UID[:\s]([^\r\n]+)` -/
def uidThenSeparator (s : List Char) : Option (List Char) :=
  match afterName UID s with
  | some (separator :: rest) =>
    let captured := rest.takeWhile fun c => c ≠ '\r' && c ≠ '\n'
    if (separator = ':' || isWhiteSpace separator) && captured ≠ [] then some captured else none
  | _ => none

/-- `[ \t]*UID[:\s]([^\r\n]+)` -/
def uidIndented (s : List Char) : Option (List Char) := uidThenSeparator (s.dropWhile isSpaceOrTab)

/-- `UID(?:;[^:\r\n]*)?:(.*)$` -/
def uidWithParams (s : List Char) : Option (List Char) :=
  match afterName UID s with
  | some (';' :: rest) =>
    match rest.dropWhile fun c => c ≠ ':' && c ≠ '\r' && c ≠ '\n' with
    | ':' :: value => some (firstLine value)
    | _ => none
  | some (':' :: value) => some (firstLine value)
  | _ => none

/-- `UID:(.*)$` -/
def uidBare (s : List Char) : Option (List Char) :=
  match afterName UID s with
  | some (':' :: value) => some (firstLine value)
  | _ => none

/-- `\r\n[ \t]` -/
def crLfFold (s : List Char) : Nat :=
  if ['\r', '\n'].isPrefixOf s && foldsAfter (s.drop 2) then 3 else 0

/-- `\n[ \t]` -/
def lfFold (s : List Char) : Nat := if s.head? = some '\n' && foldsAfter s.tail then 2 else 0

/-- The CR of `\r\n`. -/
def crOfCrLf (s : List Char) : Nat := if ['\r', '\n'].isPrefixOf s then 1 else 0

/-- `replace(/\r\n[ \t]/g, '').replace(/\n[ \t]/g, '')` -/
def unfoldedListing (text : List Char) : List Char := dropMatches lfFold (dropMatches crLfFold text)

/-- `replace(/\r\n/g, '\n').replace(/\n[ \t]/g, '')` -/
def unfoldedDiscovery (text : List Char) : List Char := dropMatches lfFold (dropMatches crOfCrLf text)

/-! ### The readers -/

/-- The search for a line, what it captures trimmed; an empty one is none. -/
def uidBy (here : List Char → Option (List Char)) (text : List Char) : Option (List Char) :=
  (searchLines isLineTerminator here text).bind fun captured => nonEmptyText (trim captured)

/-- `CalDAVSource.extractUidFromIcalendar` -/
def extractUidFromIcalendar (icalendar : List Char) : Option (List Char) := uidBy uidIndented icalendar

/-- `CardDAVSource.extractUidFromVcard` -/
def extractUidFromVcard (vcard : List Char) : Option (List Char) := uidBy uidThenSeparator vcard

def extractUid (body : List Char) : Option (List Char) := uidBy uidWithParams (unfoldedListing body)

def firstUid (text : List Char) : Option (List Char) := uidBy uidBare (unfoldedDiscovery text)

/-- `extractUidFromVcard` of `jmap-contact-target.ts`; none where it throws. -/
def jmapExtractUidFromVcard (vcard : List Char) : Option (List Char) := uidBy uidWithParams vcard

inductive UidDomain where
  | calendar | task | contact
  deriving DecidableEq

section Keys

variable (t : CaseTable)

def keyHash : UidDomain → List Char → Sha256Hex
  | .calendar, uid => calendarNaturalKeyHash t uid
  | .task, uid => taskNaturalKeyHash t uid
  | .contact, uid => contactNaturalKeyHash uid

/-- The keys that are made of an object, each by its reader: the source's (which
lower-cases the UID of a calendar object), the target listing's, discovery's,
and of a card the JMAP writer's. -/
def keysOf (domain : UidDomain) (text : List Char) : List (Option Sha256Hex) :=
  match domain with
  | .contact =>
    [extractUidFromVcard, extractUid, firstUid, jmapExtractUidFromVcard].map fun read =>
      (read text).map (keyHash t .contact)
  | domain =>
    [fun text => (extractUidFromIcalendar text).map t.toLowerCase, extractUid, firstUid].map
      fun read => (read text).map (keyHash t domain)

end Keys

/-! ### Objects -/

/-- `[A-Za-z0-9-]+` -/
def IsName (s : List Char) : Prop := s ≠ [] ∧ ∀ c ∈ s, c.isAlphanum = true ∨ c = '-'

inductive ParamValue where
  | plain (text : List Char)
  | quoted (text : List Char)

def ParamValue.text : ParamValue → List Char
  | plain text => text
  | quoted text => '"' :: (text ++ ['"'])

def ParamValue.Legal : ParamValue → Prop
  | plain text => ∀ c ∈ text, c ≠ '"' ∧ c ≠ ';' ∧ c ≠ ':' ∧ c ≠ ','
  | quoted text => ∀ c ∈ text, c ≠ '"'

/-- A property, as one content line says it. -/
structure Property where
  group : Option (List Char)
  name : List Char
  params : List (List Char × ParamValue)
  value : List Char

def Property.front (p : Property) : List Char :=
  (p.group.elim [] fun group => group ++ ['.']) ++ p.name ++
    p.params.flatMap fun param => ';' :: (param.1 ++ '=' :: param.2.text)

def Property.line (p : Property) : List Char := p.front ++ ':' :: p.value

structure Property.Legal (p : Property) : Prop where
  name : IsName p.name
  group : ∀ g ∈ p.group, IsName g
  params : ∀ param ∈ p.params, IsName param.1 ∧ param.2.Legal
  oneLine : ∀ c ∈ p.line, c ≠ '\r' ∧ c ≠ '\n'

/-- How a line ends. -/
inductive LineEnd where
  | crLf | lf | cr
  deriving DecidableEq

def LineEnd.text : LineEnd → List Char
  | crLf => ['\r', '\n']
  | lf => ['\n']
  | cr => ['\r']

/-- A content line as it is written: its first physical line, and each
continuation behind a line end and a blank. -/
structure Written where
  property : Property
  first : List Char
  more : List (LineEnd × Char × List Char)
  ending : LineEnd

structure Written.Legal (w : Written) : Prop where
  property : w.property.Legal
  first : w.first ≠ []
  parts : w.first ++ w.more.flatMap (fun part => part.2.2) = w.property.line
  blank : ∀ part ∈ w.more, isSpaceOrTab part.2.1 = true

def Written.unended (w : Written) : List Char :=
  w.first ++ w.more.flatMap fun part => part.1.text ++ part.2.1 :: part.2.2

def Written.text (w : Written) : List Char := w.unended ++ w.ending.text

/-- The lines of an object, the last one with its end or without. -/
def linesText (ended : Bool) : List Written → List Char
  | [] => []
  | [w] => if ended then w.text else w.unended
  | w :: v :: rest => w.text ++ linesText ended (v :: rest)

/-- An object, with the UID property of its component. -/
structure CardOrEvent where
  before : List Written
  uid : Written
  after : List Written
  ended : Bool

namespace CardOrEvent

def beforeText (o : CardOrEvent) : List Char := o.before.flatMap Written.text

def text (o : CardOrEvent) : List Char := o.beforeText ++ linesText o.ended (o.uid :: o.after)

structure Legal (o : CardOrEvent) : Prop where
  before : ∀ w ∈ o.before, w.Legal
  uid : o.uid.Legal
  after : ∀ w ∈ o.after, w.Legal
  name : o.uid.property.name.map Char.toLower = UID
  value : trim o.uid.property.value ≠ []

end CardOrEvent

/-- The text begins like a UID property, behind blanks where `indented`. -/
def BeginsUid (indented : Bool) (s : List Char) : Prop :=
  ∃ separator rest,
    afterName UID (if indented then s.dropWhile isSpaceOrTab else s) = some (separator :: rest) ∧
      (separator = ':' ∨ separator = ';' ∨ isWhiteSpace separator = true)

/-- No line of the text does. -/
def NoUid (indented : Bool) (text : List Char) : Prop :=
  ∀ s, LineStart isLineTerminator true text s → ¬ BeginsUid indented s

/-- The UID stands on one physical line, with no group and no parameters, and no
line before it begins like a UID property: none as it is written (for a calendar
object not behind blanks either), and none unfolded. -/
structure PlainUid (domain : UidDomain) (o : CardOrEvent) : Prop where
  group : o.uid.property.group = none
  params : o.uid.property.params = []
  unfolded : o.uid.more = []
  oneLine : OneLine o.uid.property.value
  before : NoUid (domain ≠ .contact) o.beforeText
  beforeListing : NoUid false (unfoldedListing o.beforeText)
  beforeDiscovery : NoUid false (unfoldedDiscovery o.beforeText)

end Ownpace.Uid
