/-
Ownpace/Sharing/Refused.lean

What a press says of the shares it could not apply (`share-queue.ts`,
`share-gate.ts`, `share-refusals.ts`).
-/
import Ownpace.Cutover.Machine
import Ownpace.Sharing.Grant

namespace Ownpace.Sharing

structure Bilingual where
  en : String
  nl : String
  deriving DecidableEq

/-! ### Before the cutover -/

def dataTypeOfShare (subject : Text) : Option DiscoveryDomain :=
  if subject = text "mailbox" then some .email
  else if subject = text "calendar" then some .calendar
  else if subject = text "drive_item" then some .file
  else none

def NOT_CUT_OVER_REASON : String :=
  "Shares are applied at or after cutover, not before: the share invite is an " ++
  "announcement that the new system is live, and this migration is not cut over yet. " ++
  "Work the sharing checklist once it is (ADR-0032)."

/-- A data type's noun, and whether it is a plural. -/
def SHARED_DATA : DiscoveryDomain → String × Bool
  | .email => ("mail", false)
  | .calendar => ("calendars", true)
  | .contact => ("contacts", true)
  | .file => ("files", true)
  | .task => ("tasks", true)

/-- The data types a refusal names, or none when it speaks of the whole migration. -/
def sharedDataNamed (subjects : List Text) : Option (List (String × Bool)) :=
  let domains := subjects.map dataTypeOfShare
  if domains.length = 0 || domains.contains none then none
  else some ((discoveryDomains.filter fun d => domains.contains (some d)).map SHARED_DATA)

def notCutOverReason (subjects : List Text) : String :=
  match sharedDataNamed subjects with
  | none => NOT_CUT_OVER_REASON
  | some [(noun, plural)] =>
    let be := if plural then "are" else "is"
    "Shares on this migration's " ++ noun ++ " are applied once the " ++ noun ++ " " ++ be ++
    " cut over, not before: the share invite is an announcement that the new system is live, " ++
    "and the " ++ noun ++ " " ++ be ++ " not cut over yet. Work these rows once " ++
    (if plural then "they are" else "it is") ++ " (ADR-0032)."
  | some named =>
    let nouns := named.map Prod.fst
    let list := ", ".intercalate nouns.dropLast ++ " and " ++ nouns.getLast?.getD ""
    "Shares on this migration's " ++ list ++ " are applied once each is cut over, not before: " ++
    "the share invite is an announcement that the new system is live, and none of them " ++
    "is cut over yet. Work these rows once they are (ADR-0032)."

/-! ### The target's refusals -/

/-- `keyof typeof SHARE_REFUSAL` -/
inductive ShareRefusalKind : Type
  | signIn | serverError | notNextcloud | notFound | noAccountNoMail | forbidden | badRequest
  | limited | other | unreachable | certificate | insideOurNetwork | noOrigin | unknown
  deriving DecidableEq

def SPENT_NOTHING : List ShareRefusalKind :=
  [.signIn, .unreachable, .certificate, .insideOurNetwork, .noOrigin, .unknown]

/-- Did the refused call count toward the target's limit? -/
def spentTheLimit (kind : Option ShareRefusalKind) : Bool :=
  kind.any fun kind => !SPENT_NOTHING.contains kind

/-- `ShareLimit` -/
structure ShareLimit where
  retryAfterSeconds : Option Nat := none
  deriving DecidableEq

def oneBefore : Bilingual where
  en :=
    "Before the limit, the new system refused 1 share this press asked for, and that attempt counts " ++
    "toward the same limit. A press asks for it again before the rows that wait, so correct that row, " ++
    "skip it or mark it done before applying again, or it spends part of the limit again."
  nl :=
    "Vóór de limiet weigerde het nieuwe systeem 1 deelrecht waar deze actie om vroeg, en die poging telt " ++
    "mee voor dezelfde limiet. Opnieuw toepassen vraagt het eerst weer aan, vóór de regels die wachten: " ++
    "pas die regel dus eerst aan, sla hem over of vink hem af, anders gaat er opnieuw een deel van de " ++
    "limiet aan op."

def someBefore (refused : Nat) : Bilingual where
  en :=
    "Before the limit, the new system refused " ++ toString refused ++ " shares this press asked for, " ++
    "and those attempts count toward the same limit. A press asks for them again before the rows that " ++
    "wait, so correct those rows, skip them or mark them done before applying again, or they spend the " ++
    "limit again."
  nl :=
    "Vóór de limiet weigerde het nieuwe systeem " ++ toString refused ++ " deelrechten waar deze actie " ++
    "om vroeg, en die pogingen tellen mee voor dezelfde limiet. Opnieuw toepassen vraagt ze eerst weer " ++
    "aan, vóór de regels die wachten: pas die regels dus eerst aan, sla ze over of vink ze af, anders " ++
    "gaat de limiet er opnieuw aan op."

def signInBefore : Bilingual where
  en :=
    "During this press the new system also refused the sign-in this migration uses for it, and after " ++
    "too many failed sign-ins Nextcloud answers this way for up to half an hour: check the password of " ++
    "the destination account on the Accounts page first, and allow that half hour before applying again."
  nl :=
    "Tijdens deze actie weigerde het nieuwe systeem ook de aanmelding van deze migratie, en na te veel " ++
    "mislukte aanmeldingen antwoordt Nextcloud tot een half uur lang zo: controleer eerst het wachtwoord " ++
    "van het doelaccount op de pagina Accounts, en wacht dat half uur af voordat u het opnieuw toepast."

/-- What a press adds to the limit's sentence, after refusals. -/
def limitAfterRefusals (refused : Nat) (signIn : Bool) : Option Bilingual :=
  let counted := if refused = 1 then [oneBefore] else if refused > 1 then [someBefore refused] else []
  let said := counted ++ if signIn then [signInBefore] else []
  if said.length = 0 then none
  else some { en := " ".intercalate (said.map Bilingual.en), nl := " ".intercalate (said.map Bilingual.nl) }

end Ownpace.Sharing
