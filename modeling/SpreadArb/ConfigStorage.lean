import SpreadArb.PriceChaser

namespace SpreadArb

/-- The texts that `serde_json` makes of the two kinds of settings, and what it reads in a text. -/
structure ConfigCodec where
  configText : RepricingConfig → String
  readConfig : String → Except String RepricingConfig
  thresholdsText : ℚ × ℚ → String
  readThresholds : String → Except String (ℚ × ℚ)

/-- `InMemoryConfigStorage`. -/
abbrev ConfigStorage := String → Option String

namespace ConfigStorage

def repricingKey : String := "strategy:config:repricing"

def thresholdsKey : String := "strategy:config:confidence_thresholds"

def new : ConfigStorage := fun _ => none

variable (codec : ConfigCodec)

def saveRepricingConfig (s : ConfigStorage) (config : RepricingConfig) : ConfigStorage :=
  Function.update s repricingKey (some (codec.configText config))

def loadRepricingConfig (s : ConfigStorage) : Except String RepricingConfig :=
  match s repricingKey with
  | some json => (codec.readConfig json).mapError (fun e => s!"Failed to deserialize config: {e}")
  | none => .ok .balanced

def saveConfidenceThresholds (s : ConfigStorage) (ultraFast balanced : ℚ) : ConfigStorage :=
  Function.update s thresholdsKey (some (codec.thresholdsText (ultraFast,balanced)))

def loadConfidenceThresholds (s : ConfigStorage) : Except String (ℚ × ℚ) :=
  match s thresholdsKey with
  | some json => (codec.readThresholds json).mapError (fun e =>
    s!"Failed to deserialize thresholds: {e}")
  | none => .ok (90,75)

end ConfigStorage

namespace ConfigValidator

/-- A parameter of the configuration outside its range, as it is reported. -/
inductive Invalid where
  | repriceThresholdBps (value : ℚ)
  | maxReprices (value : Nat)
  | repriceIntervalMs (value : Nat)
  | totalTimeoutSeconds (value : Nat)
  | spreadCollapseThresholdBps (value : ℚ)
deriving DecidableEq

/-- The text of the error. `display` is the shortest text of a double. -/
def Invalid.text (display : ℚ → String) : Invalid → String
  | .repriceThresholdBps value =>
    "Invalid reprice_threshold_bps: " ++ display value ++ " (must be 1-20)"
  | .maxReprices value => s!"Invalid max_reprices: {value} (must be 1-10)"
  | .repriceIntervalMs value => s!"Invalid reprice_interval_ms: {value} (must be 50-500)"
  | .totalTimeoutSeconds value => s!"Invalid total_timeout_seconds: {value} (must be 1-10)"
  | .spreadCollapseThresholdBps value =>
    "Invalid spread_collapse_threshold_bps: " ++ display value ++ " (must be 20-100)"

/-- `validate_repricing_config`: the first parameter that is not in its range. -/
def validateRepricingConfig (config : RepricingConfig) : Except Invalid Unit :=
  if config.repriceThresholdBps < 1 || config.repriceThresholdBps > 20 then
    .error (.repriceThresholdBps config.repriceThresholdBps)
  else if config.maxReprices < 1 || config.maxReprices > 10 then
    .error (.maxReprices config.maxReprices)
  else if config.repriceIntervalMs < 50 || config.repriceIntervalMs > 500 then
    .error (.repriceIntervalMs config.repriceIntervalMs)
  else if config.totalTimeoutSeconds < 1 || config.totalTimeoutSeconds > 10 then
    .error (.totalTimeoutSeconds config.totalTimeoutSeconds)
  else if config.spreadCollapseThresholdBps < 20 || config.spreadCollapseThresholdBps > 100 then
    .error (.spreadCollapseThresholdBps config.spreadCollapseThresholdBps)
  else .ok ()

end ConfigValidator

end SpreadArb
