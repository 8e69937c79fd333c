import AiApiBridge.Config
import AiApiBridge.Lib.Binary64
import AiApiBridge.Lib.TimedLog

/-!
# The usage meter

Per-provider rolling usage by kind (`usage.rs`), and what one request records there
(`server.rs`). The two maps of the source are one function: a missing entry reads as
an empty log. Times are in seconds; a window length becomes an `i64` by
reinterpreting its bits. Times and lengths are added as integers here, which is the
`i64` arithmetic of the source for the windows in range (`UsageWindow.InRange`).
-/

set_option autoImplicit false

namespace AiApiBridge

/-- Retention horizon: older events are dropped. -/
def retainSecs : Int := 31 * 24 * 3600

/-- A window whose length can be added to the time of an event, and taken from it, in an
`i64`. -/
def UsageWindow.InRange (w : UsageWindow) : Prop := w.windowSecs < 2 ^ 62

instance (w : UsageWindow) : Decidable w.InRange := inferInstanceAs (Decidable (_ < _))

theorem UsageWindow.InRange.asI64 {w : UsageWindow} (h : w.InRange) :
    AiApiBridge.asI64 w.windowSecs = w.windowSecs :=
  asI64_of_lt (Nat.lt_trans h (by decide))

/-- Usage snapshot of one window. -/
structure WindowStat where
  label : String
  limit : FloatValue
  spent : FloatValue
  remaining : FloatValue
  resetInSecs : Int
  deriving DecidableEq, Repr

/-- The events of one provider and kind, as times and amounts. -/
abbrev UsageLog := List (Int × FloatValue)

/-- The in-memory rolling usage log. -/
structure UsageMeter where
  events : String → UsageKind → UsageLog

/-- Estimated dollar cost of a request. -/
def ModelPrice.estimate (price : ModelPrice) (promptTokens completionTokens : Nat) : FloatValue :=
  FloatValue.add
    (FloatValue.mul (FloatValue.div (.ofNat promptTokens) (.finite 1000000)) price.input)
    (FloatValue.mul (FloatValue.div (.ofNat completionTokens) (.finite 1000000)) price.output)

namespace Usage

/-- The upstream's real cost when it is above zero, else an estimate when there is
a price. -/
def effectiveCost (real : Option FloatValue) (price : Option ModelPrice)
    (promptTokens completionTokens : Option Nat) : Option FloatValue :=
  match real.filter fun c => FloatValue.lt (.finite 0) c with
  | some c => some c
  | none => price.map fun p => p.estimate (promptTokens.getD 0) (completionTokens.getD 0)

/-- The amount to charge a kind for one request. The sum of the token counts is a
`u64`. -/
def amountFor (kind : UsageKind) (price : Option ModelPrice) (real : Option FloatValue)
    (promptTokens completionTokens : Option Nat) : Option FloatValue :=
  match kind with
  | .billing => effectiveCost real price promptTokens completionTokens
  | .count => some (.finite 1)
  | .token => some (.ofNat ((promptTokens.getD 0 + completionTokens.getD 0) % 2 ^ 64))

/-- Whether `record` takes an amount. -/
def recordable (amount : FloatValue) : Bool :=
  amount.isFinite && !FloatValue.le amount (.finite 0)

end Usage

open Usage

namespace UsageMeter

def new : UsageMeter := ⟨fun _ _ => []⟩

/-- Record one request's usage `amount` for a kind. -/
def record (m : UsageMeter) (provider : String) (kind : UsageKind) (amount : FloatValue)
    (now : Int) : UsageMeter :=
  if recordable amount then
    ⟨fun p k =>
      if p = provider ∧ k = kind then TimedLog.push retainSecs now amount (m.events p k)
      else m.events p k⟩
  else m

/-- The body of the loop of `record_amounts`. -/
def recordEntry (m : UsageMeter) (provider : String) (real : Option FloatValue)
    (pt ct : Option Nat) (now : Int) (entry : UsageKind × Option ModelPrice) : UsageMeter :=
  match amountFor entry.1 entry.2 real pt ct with
  | some amount => m.record provider entry.1 amount now
  | none => m

/-- One window's spent/remaining at time `now`. -/
def windowStat (events : UsageLog) (now : Int) (w : UsageWindow) : WindowStat :=
  let inside := TimedLog.since (now - asI64 w.windowSecs) events
  let spent := (inside.map Prod.snd).foldl FloatValue.add (.finite 0)
  { label := w.label
    limit := w.limit
    spent
    remaining := FloatValue.max (FloatValue.sub w.limit spent) (.finite 0)
    -- the window resets when its oldest event leaves it
    resetInSecs := match inside.head? with
      | some (ts, _) => max (ts + asI64 w.windowSecs - now) 0
      | none => asI64 w.windowSecs }

/-- Per-window spent/remaining for a provider's kind at time `now`. -/
def windows (m : UsageMeter) (provider : String) (kind : UsageKind) (ws : List UsageWindow)
    (now : Int) : List WindowStat :=
  ws.map (windowStat (m.events provider kind) now)

/-- Whether any window of any of the usage specs is exhausted. -/
def exhausted (m : UsageMeter) (provider : String) (specs : List UsageSpec) (now : Int) : Bool :=
  specs.any fun spec => (m.windows provider spec.kind spec.windows now).any fun w =>
    FloatValue.le w.remaining (.finite 0)

/-- The providers with at least one exhausted window. -/
def exhaustedSet (m : UsageMeter) (providers : List (String × Provider)) (now : Int) :
    List String :=
  (providers.filter fun (name, p) => m.exhausted name p.usage now).map Prod.fst

end UsageMeter

/-- The provider's usage kinds, each with the served model's price if any. -/
def usageKinds (cfg : Config) (provider model : String) : List (UsageKind × Option ModelPrice) :=
  match cfg.providers.lookup provider with
  | some p => p.usage.map fun spec => (spec.kind, spec.modelPrices.bind fun m => m.lookup model)
  | none => []

/-- Record one request's amount for each of the provider's usage kinds. -/
def recordAmounts (meter : UsageMeter) (provider : String)
    (kinds : List (UsageKind × Option ModelPrice)) (real : Option FloatValue)
    (pt ct : Option Nat) (now : Int) : UsageMeter :=
  kinds.foldl (fun m entry => m.recordEntry provider real pt ct now entry) meter

/-! ## What a request adds to a log -/

section Charges

variable (real : Option FloatValue) (pt ct : Option Nat)

/-- The amount one entry of a request's kinds charges to the kind `k`. -/
def chargeOf (k : UsageKind) (entry : UsageKind × Option ModelPrice) : Option FloatValue :=
  if entry.1 = k then (amountFor entry.1 entry.2 real pt ct).filter recordable else none

/-- The amounts a request charges to the kind `k`. -/
def charges (kinds : List (UsageKind × Option ModelPrice)) (k : UsageKind) : List FloatValue :=
  kinds.filterMap (chargeOf real pt ct k)

end Charges

section Since

variable {now s : Int} (hs : now - retainSecs ≤ s) (m : UsageMeter) (provider p : String)
  (k : UsageKind)

include hs

/-- One record, seen through a window within the horizon. -/
theorem since_record (kind : UsageKind) (amount : FloatValue) :
    TimedLog.since s ((m.record provider kind amount now).events p k) =
      TimedLog.since s (m.events p k) ++
        if p = provider ∧ k = kind ∧ recordable amount then TimedLog.since s [(now, amount)]
        else [] := by
  rw [UsageMeter.record]
  by_cases hr : recordable amount = true
  · rw [if_pos hr]
    by_cases hk : p = provider ∧ k = kind
    · simp only [hk, hr, and_self, if_true]
      exact TimedLog.since_push hs amount _
    · have hk' : ¬ (p = provider ∧ k = kind ∧ recordable amount = true) :=
        fun h => hk ⟨h.1, h.2.1⟩
      simp only [if_neg hk, if_neg hk', List.append_nil]
  · have hk' : ¬ (p = provider ∧ k = kind ∧ recordable amount = true) := fun h => hr h.2.2
    simp only [if_neg hr, if_neg hk', List.append_nil]

/-- One entry of a request's kinds. -/
theorem since_recordEntry (real : Option FloatValue) (pt ct : Option Nat)
    (entry : UsageKind × Option ModelPrice) :
    TimedLog.since s ((m.recordEntry provider real pt ct now entry).events p k) =
      TimedLog.since s (m.events p k) ++
        if p = provider then
          TimedLog.since s ((chargeOf real pt ct k entry).toList.map fun amount => (now, amount))
        else [] := by
  rcases entry with ⟨kind, price⟩
  rw [UsageMeter.recordEntry, chargeOf]
  cases hamount : amountFor kind price real pt ct with
  | none => simp
  | some amount =>
      simp only [since_record hs]
      congr 1
      by_cases hp : p = provider
      · by_cases hk : kind = k
        · cases hr : recordable amount <;> simp [hp, hk, hr, Option.filter]
        · simp [hk, Ne.symm hk]
      · simp [hp]

/-- **One request**, seen through a window within the horizon: it adds its charges. -/
theorem since_recordAmounts (kinds : List (UsageKind × Option ModelPrice))
    (real : Option FloatValue) (pt ct : Option Nat) :
    TimedLog.since s ((recordAmounts m provider kinds real pt ct now).events p k) =
      TimedLog.since s (m.events p k) ++
        if p = provider then
          TimedLog.since s ((charges real pt ct kinds k).map fun amount => (now, amount))
        else [] := by
  induction kinds generalizing m with
  | nil => simp [recordAmounts, charges]
  | cons entry kinds ih =>
      have hcharges : charges real pt ct (entry :: kinds) k =
          (chargeOf real pt ct k entry).toList ++ charges real pt ct kinds k := by
        cases h : chargeOf real pt ct k entry <;> simp [charges, h]
      rw [recordAmounts, List.foldl_cons, ← recordAmounts, ih, since_recordEntry hs, hcharges]
      by_cases hp : p = provider
      · simp only [if_pos hp, List.map_append, TimedLog.since_append, List.append_assoc]
      · simp only [if_neg hp, List.append_nil]

end Since

end AiApiBridge
