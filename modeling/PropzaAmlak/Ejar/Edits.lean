import PropzaAmlak.Ejar.Actions

/-! A contract whose form is edited while its tasks run. -/

namespace Ejar

open Tx

/-- The values of one save of the form; `none` stands for a field that was not touched.
Parties and units are given as they are after the save. Required fields cannot be emptied. -/
structure FormVals where
  contractType : Option ContractType := none
  contractSubType : Option ContractSubType := none
  useType : Option (Option UseType) := none
  partyIds : Option (Records Party) := none
  unitIds : Option (Records ContractUnit) := none
  startDate : Option Date := none
  endDate : Option Date := none
  rentAmount : Option Rat := none
  paymentSchedule : Option PaymentSchedule := none
  paymentOption : Option (Option PaymentOption) := none
  subleaseAllowed : Option Bool := none
  brokerageFee : Option Rat := none
  brokerageFeePaidBy : Option (Option FeePayer) := none
  ejarFeesPaidBy : Option (Option FeePayer) := none
  customTerms : Option CharField := none

def Contract.edit (c : Contract) (v : FormVals) : Contract :=
  { c with
    contractType := v.contractType.or c.contractType
    contractSubType := v.contractSubType.or c.contractSubType
    useType := v.useType.getD c.useType
    partyIds := v.partyIds.getD c.partyIds
    unitIds := v.unitIds.getD c.unitIds
    startDate := v.startDate.or c.startDate
    endDate := v.endDate.or c.endDate
    rentAmount := v.rentAmount.getD c.rentAmount
    paymentSchedule := v.paymentSchedule.or c.paymentSchedule
    paymentOption := v.paymentOption.getD c.paymentOption
    subleaseAllowed := v.subleaseAllowed.getD c.subleaseAllowed
    brokerageFee := v.brokerageFee.getD c.brokerageFee
    brokerageFeePaidBy := v.brokerageFeePaidBy.getD c.brokerageFeePaidBy
    ejarFeesPaidBy := v.ejarFeesPaidBy.getD c.ejarFeesPaidBy
    customTerms := v.customTerms.getD c.customTerms }

/-- `_check_dates` -/
def checkDates (c : Contract) : Except Exc Unit :=
  match c.startDate, c.endDate with
  | some start, some stop =>
    if start < stop then .ok ()
    else .error { cls := .validationError, message := "تاريخ الانتهاء يجب أن يكون بعد تاريخ البداية" }
  | _, _ => .ok ()

/-- `'%.2f' % q` -/
def formatCents (q : Rat) : String :=
  let cents := (pyRound q 2 * 100).num
  let digits := cents.natAbs
  (if cents < 0 then "-" else "") ++ toString (digits / 100) ++ "." ++
    toString (digits % 100 / 10) ++ toString (digits % 10)

/-- `_check_brokerage_fee_cap` -/
def checkBrokerageFeeCap (c : Contract) : Except Exc Unit :=
  let cap := c.rentAmount * (25 / 1000)
  if c.brokerageFee ≠ 0 ∧ c.rentAmount ≠ 0 ∧ cap < c.brokerageFee then
    .error { cls := .validationError
             message := "عمولة الوساطة لا يجوز أن تتجاوز 2.5% من قيمة الإيجار السنوي (" ++
               formatCents cap ++ " ريال)" }
  else .ok ()

/-- The constraints on the fields that were touched. -/
def checkForm (v : FormVals) (record : Contract) : Except Exc Unit := do
  if v.startDate.isSome || v.endDate.isSome then checkDates record
  if v.brokerageFee.isSome || v.rentAmount.isSome then checkBrokerageFeeCap record

/-- What is written by a task, or by a save of the form. -/
inductive SiteWrite where
  | task (u : WorldWrite)
  | form (v : FormVals)

def SiteWrite.apply : SiteWrite → World → World
  | task u, w => u.apply w
  | form v, w => { w with contract := w.contract.edit v }

abbrev SiteProg := Prog World SiteWrite Request Reply TaskExc

def saveForm (v : FormVals) : SiteProg Unit := do
  Prog.put (.form v)
  let w ← Prog.get
  match checkForm v w.contract with
  | .ok () => pure ()
  | .error e => throw (.exc e)

inductive SiteTask where
  | task (t : Task)
  | save (v : FormVals)

def SiteTask.body (inst : Installation) : SiteTask → SiteProg Unit
  | task t => (t.body inst).zoom id .task
  | save v => saveForm v

def SiteTask.start : SiteTask → World → Option World
  | task t, w => t.start w
  | save _, w => some w

def SiteTask.finish : SiteTask → Outcome TaskExc Unit → World → World
  | task t, o, w => t.finish o w
  | save _, _, w => w

/-- The tasks of a contract, with saves of its form between their transactions. -/
def site (inst : Installation) : System World SiteWrite Request Reply TaskExc Unit SiteTask where
  app := SiteWrite.apply
  start := SiteTask.start
  body := SiteTask.body inst
  finish := SiteTask.finish

abbrev SiteMove := Move World SiteWrite Request Reply TaskExc Unit SiteTask

abbrev SiteMachine := Machine World SiteWrite Request Reply TaskExc Unit SiteTask

end Ejar
