import Mathlib.Data.Finset.Max
import PropzaAmlak.Data.Spaces
import PropzaAmlak.Data.Table
import PropzaAmlak.Ejar.Payload

/-! The identity checks of `sa_user_verification.py`, and the identity of a partner that
they write to. -/

namespace Profile

open Ejar (CharField)
open Text (isDecimalDigit isSpace strip)

inductive IdType
  | nationalId | iqama | gcc | passport | commercial
deriving DecidableEq

/-- `sa_id_type` of a partner -/
inductive PartnerIdType
  | nationalId | iqama | gcc | passport | company
deriving DecidableEq

/-- The value under the same name, if a partner can have it. -/
def IdType.forPartner : IdType → Option PartnerIdType
  | nationalId => some .nationalId
  | iqama => some .iqama
  | gcc => some .gcc
  | passport => some .passport
  | commercial => none

inductive VerificationState
  | draft | submitted | verified | rejected
deriving DecidableEq

/-- What is entered for a verification. -/
structure IdData where
  idType : IdType
  idNumber : String
  idExpiry : Option Date := none
  idScan : Bool := false
deriving DecidableEq

/-- A record of `sa.user.verification`. -/
structure Verification extends IdData where
  partner : Nat
  state : VerificationState := .draft
  rejectionReason : CharField := none
  verifiedDate : Option Int := none
  submissionDate : Option Int := none

/-- The identity fields of `res.partner`. -/
structure Identity where
  idType : Option PartnerIdType := none
  nationalId : CharField := none
  idExpiry : Option Date := none
  idVerified : Bool := false
deriving DecidableEq

structure Registry where
  verifications : Table Verification
  partners : Nat → Identity

inductive Fault
  | userError (message : String)
  | validationError (message : String)
  | wrongValue (field value : String)
  | missingError
deriving DecidableEq

/-- `fields.Datetime.now()` and `fields.Date.today()` -/
structure Moment where
  now : Int
  today : Date

/-- What `[\s\-]` matches. -/
def isSeparator (c : Char) : Bool := isSpace c || c = '-'

/-- `re.sub(r'[\s\-]', '', number)` -/
def normalizedNumber (number : String) : List Char := number.toList.filter (!isSeparator ·)

/-- The digits of `isdigit` that are no decimal ones. -/
def otherDigits : List (Nat × Nat) :=
  [(0xb2, 0xb3), (0xb9, 0xb9), (0x1369, 0x1371), (0x19da, 0x19da), (0x2070, 0x2070), (0x2074, 0x2079), (0x2080, 0x2089),
    (0x2460, 0x2468), (0x2474, 0x247c), (0x2488, 0x2490), (0x24ea, 0x24ea), (0x24f5, 0x24fd), (0x24ff, 0x24ff),
    (0x2776, 0x277e), (0x2780, 0x2788), (0x278a, 0x2792), (0x10a40, 0x10a43), (0x10e60, 0x10e68), (0x11052, 0x1105a),
    (0x1f100, 0x1f10a)]

/-- `text.isdigit()` -/
def isDigits (text : List Char) : Bool :=
  text ≠ [] && text.all fun c => isDecimalDigit c || otherDigits.any fun r => r.1 ≤ c.toNat && c.toNat ≤ r.2

/-- `^<first>\d{9}$` -/
def tenDigitsFrom (first : Char) : List Char → Bool
  | [] => false
  | c :: rest => c = first && rest.length = 9 && rest.all isDecimalDigit

/-- What is wrong with a number of the type, written without separators. -/
def numberError (idType : IdType) (idNum : List Char) : Option String :=
  match idType with
  | .nationalId => if tenDigitsFrom '1' idNum then none else some "رقم الهوية الوطنية: 10 أرقام يبدأ بـ 1"
  | .iqama => if tenDigitsFrom '2' idNum then none else some "رقم الإقامة: 10 أرقام يبدأ بـ 2"
  | .gcc =>
    if !isDigits idNum || idNum.length < 8 then some "رقم الهوية الخليجية: 8 أرقام على الأقل" else none
  | .passport => if idNum.length < 6 then some "رقم جواز السفر: 6 خانات على الأقل" else none
  | .commercial => if idNum.length = 10 && idNum.all isDecimalDigit then none else some "رقم السجل التجاري: 10 أرقام"

/-- `errors` of `_auto_verify` -/
def errors (today : Date) (v : IdData) : List String :=
  (numberError v.idType (normalizedNumber v.idNumber)).toList ++
    ((match v.idExpiry with
      | some expiry => if expiry < today then ["الوثيقة منتهية الصلاحية"] else []
      | none => []) ++
    if v.idScan then [] else ["يجب رفع صورة الوثيقة"])

/-- `_check_national_id`, where the partner has both fields. -/
def checkNationalId (idType : PartnerIdType) (number : String) : Except Fault Unit :=
  if number ≠ "" ∧ idType = .nationalId then
    let nid := strip number.toList
    if !isDigits nid || nid.length ≠ 10 then .error (.validationError "رقم الهوية الوطنية يجب أن يكون 10 أرقام")
    else if !(['1'].isPrefixOf nid) && !(['2'].isPrefixOf nid) then
      .error (.validationError "رقم الهوية الوطنية يبدأ بـ 1 (مواطن) أو 2 (مقيم)")
    else .ok ()
  else .ok ()

/-- The identity that a partner gets from what was verified. -/
def identityOf (v : IdData) : Except Fault Identity :=
  match v.idType.forPartner with
  | none => .error (.wrongValue "res.partner.sa_id_type" "commercial")
  | some idType => do
    checkNationalId idType v.idNumber
    return { idType := some idType, nationalId := some v.idNumber, idExpiry := v.idExpiry, idVerified := true }

namespace Registry

def verification (s : Registry) (k : Nat) : Verification := s.verifications.row k

def setPartner (s : Registry) (p : Nat) (identity : Identity) : Registry :=
  { s with partners := Function.update s.partners p identity }

/-- `_auto_verify`, for one record. -/
def autoVerify (m : Moment) (s : Registry) (k : Nat) : Except Fault Registry :=
  let record := s.verification k
  let reasons := errors m.today record.toIdData
  if reasons ≠ [] then
    .ok { s with verifications := s.verifications.modify k fun v =>
      { v with state := .rejected, rejectionReason := some (" | ".intercalate reasons), verifiedDate := none } }
  else do
    let identity ← identityOf record.toIdData
    return { s with verifications := s.verifications.modify k fun v =>
      { v with state := .verified, rejectionReason := none, verifiedDate := some m.now } }.setPartner record.partner
        identity

/-- `action_submit`, for one record of `self`. -/
def submitOne (m : Moment) (s : Registry) (k : Nat) : Except Fault Registry :=
  if k ∉ s.verifications.ids then .error .missingError
  else if (s.verification k).state ≠ .draft ∧ (s.verification k).state ≠ .rejected then
    .error (.userError "يمكن تقديم الطلب من حالة مسودة أو مرفوض فقط.")
  else
    autoVerify m { s with verifications := s.verifications.modify k fun v => { v with submissionDate := some m.now } } k

def actionSubmit (m : Moment) (s : Registry) (ks : List Nat) : Except Fault Registry := ks.foldlM (submitOne m) s

def resetRow (v : Verification) : Verification := { v with state := .draft, rejectionReason := none, verifiedDate :=
    none }

def actionReset (s : Registry) (ks : List Nat) : Except Fault Registry :=
  if ∀ k ∈ ks, k ∈ s.verifications.ids then
    .ok { s with verifications := ks.foldl (fun t k => t.modify k resetRow) s.verifications }
  else .error .missingError

def create (s : Registry) (partner : Nat) (data : IdData) : Registry :=
  { s with verifications := s.verifications.insert { data with partner } }

/-- `submit_verification` of the portal: a new record, submitted at once. -/
def submitVerification (m : Moment) (s : Registry) (partner : Nat) (data : IdData) : Except Fault Registry :=
  let idNumber := String.ofList (strip data.idNumber.toList)
  if idNumber = "" then .ok s
  else actionSubmit m (s.create partner { data with idNumber }) [s.verifications.next]

def edit (s : Registry) (k : Nat) (data : IdData) : Registry :=
  { s with verifications := s.verifications.modify k fun v => { v with toIdData := data } }

end Registry

/-- `_compute_verification_state` from the state of the latest record. -/
inductive Badge
  | unverified | pending | verified | rejected
deriving DecidableEq

def Badge.of : VerificationState → Badge
  | .draft => unverified
  | .submitted => pending
  | .verified => verified
  | .rejected => rejected

/-- `verification_state` of a partner -/
def Registry.verificationState (s : Registry) (p : Nat) : Badge :=
  match (s.verifications.ids.filter fun k => (s.verification k).partner = p).max with
  | some k => .of (s.verification k).state
  | none => .unverified

/-- What is done with verifications; one that is not possible changes nothing. -/
inductive Action
  | create (partner : Nat) (data : IdData)
  | edit (k : Nat) (data : IdData)
  | submit (m : Moment) (ks : List Nat)
  | portal (m : Moment) (partner : Nat) (data : IdData)
  | reset (ks : List Nat)

def act (s : Registry) : Action → Registry
  | .create partner data => s.create partner data
  | .edit k data => if k ∈ s.verifications.ids then s.edit k data else s
  | .submit m ks => (s.actionSubmit m ks).toOption.getD s
  | .portal m partner data => (s.submitVerification m partner data).toOption.getD s
  | .reset ks => (s.actionReset ks).toOption.getD s

end Profile
