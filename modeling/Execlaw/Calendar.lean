import Execlaw.Outbox
/-!
# Calendar — cron expressions and timezones (`core/src/routines.rs`)

The calendar library is a parameter; what is readable of parsing is here.
-/
namespace Execlaw

structure Calendar where
  /-- `Schedule::from_str`. -/
  schedule : String → Except String Unit
  /-- `Tz::from_str`. -/
  tz : String → Except String Unit
  /-- The library has this timestamp. -/
  valid : Int → Bool
  /-- `next_fire_after`: cron, timezone, after. -/
  nextFire : String → String → Int → Option Int
  /-- The hour and the minute of a timestamp in a timezone. -/
  localTime : String → Int → Nat × Nat
  /-- The content of a scheduled message: due, definition version, conversation. -/
  content : Int → Nat → Option String → String
  increasing : ∀ cron timezone after next, nextFire cron timezone after = some next → after < next

def fieldCount : Bool → List Char → Nat
  | _, [] => 0
  | inField, c :: cs =>
    if isWhitespace c then fieldCount false cs
    else (if inField then 0 else 1) + fieldCount true cs

structure Calendar.Cron (cal : Calendar) : Prop where
  least : ∀ cron timezone after at_ next, cal.nextFire cron timezone after = some next → after ≤ at_ → at_ < next →
    cal.nextFire cron timezone at_ = some next
  last : ∀ cron timezone after at_, cal.nextFire cron timezone after = none → after ≤ at_ →
    cal.nextFire cron timezone at_ = none
  valid : ∀ cron timezone after next, cal.nextFire cron timezone after = some next → cal.valid next = true

def parseCron (cal : Calendar) (expr : String) : Except String Unit :=
  let trimmed := trim expr
  let count := fieldCount false trimmed.toList
  if count ≠ 5 then
    .error s!"cron expression must have 5 fields (minute hour day-of-month month day-of-week), got {count}"
  else
    match cal.schedule ("0 " ++ trimmed) with
    | .error e => .error s!"cron parse failed: {e}"
    | .ok () => .ok ()

def parseTimezone (cal : Calendar) (tz : String) : Except String Unit :=
  match cal.tz tz with
  | .error e => .error s!"invalid timezone '{tz}': {e}"
  | .ok () => .ok ()

def invalidRoutine (msg : String) : String := s!"invalid routine: {msg}"

def minuteCalendar : Calendar where
  schedule := fun _ => .ok ()
  tz := fun _ => .ok ()
  valid := fun _ => true
  nextFire := fun _ _ after => some ((after / 60 + 1) * 60)
  localTime := fun _ _ => (0, 0)
  content := fun _ _ _ => "fire"
  increasing := fun _ _ after next h => by
    cases h
    omega

theorem minuteCalendar_cron : minuteCalendar.Cron := by
  constructor
  · intro _ _ after at_ next h hle hlt
    cases h
    have hsame : at_ / 60 = after / 60 := by omega
    exact congrArg (fun n : Int => some ((n + 1) * 60)) hsame
  · intro _ _ after at_ h
    cases h
  · intro _ _ after next _
    rfl

end Execlaw
