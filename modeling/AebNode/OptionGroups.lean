import AebNode.CommandLine
import AebNode.KeyedWrites

/-! The command line as a sequence of option groups. Each group the parser accepts writes one
field of the options, so that parsing is a sequence of writes to the defaults. -/
namespace AebNode.CommandLine
open KeyedWrites NumberParsing

inductive OptionName
  | device
  | baud
  | scanTimeoutMs
  | canInterface
  | healthInterval
  | tcpPort
  | minAngle
  | maxAngle
  | maxDistance
  | minQuality
  | minHits
  | noReconnect
  | noCan
  deriving DecidableEq, Repr

namespace OptionName

def text : OptionName → String
  | .device => "--device"
  | .baud => "--baud"
  | .scanTimeoutMs => "--scan-timeout-ms"
  | .canInterface => "--can-interface"
  | .healthInterval => "--health-interval"
  | .tcpPort => "--tcp-port"
  | .minAngle => "--min-angle"
  | .maxAngle => "--max-angle"
  | .maxDistance => "--max-distance"
  | .minQuality => "--min-quality"
  | .minHits => "--min-hits"
  | .noReconnect => "--no-reconnect"
  | .noCan => "--no-can"

/-- The type of the field an option writes. -/
abbrev Content : OptionName → Type
  | .device | .canInterface => String
  | .baud | .scanTimeoutMs | .healthInterval | .minHits => UInt32
  | .tcpPort => UInt16
  | .minQuality => UInt8
  | .minAngle | .maxAngle | .maxDistance => FloatBits
  | .noReconnect | .noCan => Bool

def valued : List OptionName :=
  [.device, .baud, .scanTimeoutMs, .canInterface, .healthInterval, .tcpPort, .minAngle,
    .maxAngle, .maxDistance, .minQuality, .minHits]

/-- What an option makes of its value. -/
def read (width : ℕ) (value : String) : (n : OptionName) → Except String n.Content
  | .device | .canInterface => .ok value
  | .baud => parseUnsigned width value "--baud"
  | .scanTimeoutMs => parseUnsigned width value "--scan-timeout-ms"
  | .healthInterval => parseUnsigned width value "--health-interval"
  | .minHits => parseUnsigned width value "--min-hits"
  | .tcpPort => (parseUnsigned width value "--tcp-port").map UInt32.toUInt16
  | .minQuality => (parseUnsigned width value "--min-quality").map UInt32.toUInt8
  | .minAngle => parseFloat value "--min-angle"
  | .maxAngle => parseFloat value "--max-angle"
  | .maxDistance => parseFloat value "--max-distance"
  | .noReconnect => .ok false
  | .noCan => .ok true

end OptionName

open OptionName

/-- The options with the given fields; no option writes the others. -/
def build (contents : ∀ n, Content n) : Options where
  lidar :=
    { serialPort := contents .device
      baudrate := contents .baud
      scanTimeoutMs := contents .scanTimeoutMs
      autoReconnect := contents .noReconnect }
  canbus := { interface := contents .canInterface }
  noCan := contents .noCan
  tcpServer := { port := contents .tcpPort }
  perception :=
    { minAngleDeg := contents .minAngle
      maxAngleDeg := contents .maxAngle
      maxDistanceMm := contents .maxDistance
      minimumQuality := contents .minQuality
      minHitsPerSector := contents .minHits }
  healthIntervalS := contents .healthInterval

def defaults : ∀ n, Content n
  | .device => ({} : Options).lidar.serialPort
  | .baud => ({} : Options).lidar.baudrate
  | .scanTimeoutMs => ({} : Options).lidar.scanTimeoutMs
  | .canInterface => ({} : Options).canbus.interface
  | .healthInterval => ({} : Options).healthIntervalS
  | .tcpPort => ({} : Options).tcpServer.port
  | .minAngle => ({} : Options).perception.minAngleDeg
  | .maxAngle => ({} : Options).perception.maxAngleDeg
  | .maxDistance => ({} : Options).perception.maxDistanceMm
  | .minQuality => ({} : Options).perception.minimumQuality
  | .minHits => ({} : Options).perception.minHitsPerSector
  | .noReconnect => ({} : Options).lidar.autoReconnect
  | .noCan => ({} : Options).noCan

theorem build_defaults : build defaults = {} := rfl

/-! Groups. -/

def IsHelp (arg : String) : Prop := arg = "--help" ∨ arg = "-h"

instance (arg : String) : Decidable (IsHelp arg) := instDecidableOr

def IsFlag (arg : String) : Prop := arg = "--no-reconnect" ∨ arg = "--no-can"

instance (arg : String) : Decidable (IsFlag arg) := instDecidableOr

/-- A complete option group: a flag, or another option with its value. -/
inductive Group
  | flag (arg : String) (h : IsFlag arg)
  | valued (arg value : String) (h : ¬ IsHelp arg ∧ ¬ IsFlag arg)
  deriving DecidableEq, Repr

namespace Group

def arg : Group → String
  | .flag arg _ | .valued arg _ _ => arg

def tokens : Group → List String
  | .flag arg _ => [arg]
  | .valued arg value _ => [arg, value]

/-- What the loop of `parse` does with a group. -/
def apply (width : ℕ) (out : Options) : Group → Except String Options
  | .flag arg _ => .ok ((applyFlag arg out).getD out)
  | .valued arg value _ => applyValued width arg value out

/-- The group is accepted, whatever came before it. -/
def Valid (width : ℕ) (g : Group) : Prop := (g.apply width {}).isOk = true

instance (width : ℕ) (g : Group) : Decidable (g.Valid width) :=
  inferInstanceAs (Decidable (_ = true))

/-- The field a group writes. -/
def write (width : ℕ) : Group → Except String (Write Content)
  | .flag arg _ =>
    .ok (if arg = "--no-reconnect" then ⟨.noReconnect, false⟩ else ⟨.noCan, true⟩)
  | .valued arg value _ =>
    match OptionName.valued.find? fun n => n.text = arg with
    | some n => (n.read width value).map (Sigma.mk n)
    | none => .error ("unknown option " ++ arg)

end Group

/-- Why the reading of the groups ends. -/
inductive Ending
  | complete
  | help
  | missing (arg : String)
  deriving DecidableEq, Repr

/-- What `parse` returns if it gets that far. -/
def Ending.result (options : Options) : Ending → Option Options × String
  | .complete => (some options, "")
  | .help => (none, "")
  | .missing arg => (none, "missing value for option " ++ arg)

/-- The groups at the start of the arguments and what comes behind them. -/
def readArgs : List String → List Group × Ending
  | [] => ([], .complete)
  | arg :: rest =>
    if hhelp : IsHelp arg then ([], .help)
    else if hflag : IsFlag arg then
      let read := readArgs rest
      (.flag arg hflag :: read.1, read.2)
    else
      match rest with
      | [] => ([], .missing arg)
      | value :: rest =>
        let read := readArgs rest
        (.valued arg value ⟨hhelp, hflag⟩ :: read.1, read.2)

def groups (argv : List String) : List Group := (readArgs (argv.drop 1)).1

def ending (argv : List String) : Ending := (readArgs (argv.drop 1)).2

/-! A group writes its field and nothing else. -/

theorem applyValued_known {n : OptionName} (hn : n ∈ OptionName.valued) (width : ℕ) (value : String)
    (contents : ∀ n, Content n) :
    applyValued width n.text value (build contents) =
      (n.read width value).map fun v => build (KeyedWrites.write contents ⟨n, v⟩) := by
  cases n with
  | device => rfl
  | canInterface => rfl
  | noReconnect => simp [OptionName.valued] at hn
  | noCan => simp [OptionName.valued] at hn
  | tcpPort =>
    change Except.map _ (parseUnsigned width value "--tcp-port") = Except.map _ (Except.map _ _)
    cases parseUnsigned width value "--tcp-port" <;> rfl
  | minQuality =>
    change Except.map _ (parseUnsigned width value "--min-quality") = Except.map _ (Except.map _ _)
    cases parseUnsigned width value "--min-quality" <;> rfl
  | _ => rfl

theorem applyValued_unknown {arg : String} (h : ∀ n ∈ OptionName.valued, n.text ≠ arg)
    (width : ℕ) (value : String) (out : Options) :
    applyValued width arg value out = .error ("unknown option " ++ arg) := by
  simp only [OptionName.valued, List.forall_mem_cons, OptionName.text, ne_comm (b := arg)] at h
  simp only [applyValued, h, if_false]

theorem applyFlag_eq_none {arg : String} (h : ¬ IsFlag arg) (out : Options) :
    applyFlag arg out = none := by
  rw [IsFlag, not_or] at h
  rw [applyFlag, if_neg h.1, if_neg h.2]

theorem applyFlag_isSome {arg : String} (h : IsFlag arg) (out : Options) :
    (applyFlag arg out).isSome = true := by
  rcases h with rfl | rfl <;> rfl

namespace Group

theorem find_option {arg : String} {n : OptionName}
    (h : (OptionName.valued.find? fun n => n.text = arg) = some n) :
    n ∈ OptionName.valued ∧ n.text = arg :=
  ⟨List.mem_of_find?_eq_some h, by simpa using List.find?_some h⟩

theorem apply_build (width : ℕ) (contents : ∀ n, Content n) (g : Group) :
    g.apply width (build contents) =
      (g.write width).map fun w => build (KeyedWrites.write contents w) := by
  cases g with
  | flag arg h => rcases h with rfl | rfl <;> rfl
  | valued arg value h =>
    simp only [apply, write]
    cases hfind : OptionName.valued.find? fun n => n.text = arg with
    | none =>
      have hunknown : ∀ n ∈ OptionName.valued, n.text ≠ arg := by
        simpa using hfind
      exact applyValued_unknown hunknown width value _
    | some n =>
      rcases find_option hfind with ⟨hn, rfl⟩
      rw [applyValued_known hn]
      dsimp only
      cases n.read width value <;> rfl

theorem valid_iff {width : ℕ} {g : Group} : g.Valid width ↔ ∃ w, g.write width = .ok w := by
  rw [Valid, ← build_defaults, apply_build]
  cases g.write width <;> simp [Except.map, Except.isOk, Except.toBool]

theorem valid_flag (width : ℕ) {arg : String} (h : IsFlag arg) : (flag arg h).Valid width := rfl

theorem parseUnsigned_error {width : ℕ} {text option error : String}
    (h : parseUnsigned width text option = .error error) : error ≠ "" := by
  unfold parseUnsigned at h
  dsimp only at h
  split_ifs at h
  all_goals
    rcases Except.error.inj h with rfl
    simp [String.append_eq_empty_iff]

theorem parseFloat_error {text option error : String}
    (h : parseFloat text option = .error error) : error ≠ "" := by
  unfold parseFloat at h
  split at h
  · cases h
  · rcases Except.error.inj h with rfl
    simp [String.append_eq_empty_iff]

theorem map_error {α β : Type} {f : α → β} {x : Except String α} {error : String}
    (h : x.map f = .error error) : x = .error error := by
  cases x with
  | error e => exact congrArg _ (Except.error.inj h)
  | ok a => cases h

theorem read_error {width : ℕ} {value error : String} {n : OptionName}
    (h : n.read width value = .error error) : error ≠ "" := by
  cases n with
  | device | canInterface | noReconnect | noCan => cases h
  | baud | scanTimeoutMs | healthInterval | minHits => exact parseUnsigned_error h
  | tcpPort | minQuality => exact parseUnsigned_error (map_error h)
  | minAngle | maxAngle | maxDistance => exact parseFloat_error h

theorem write_error {width : ℕ} {g : Group} {error : String}
    (h : g.write width = .error error) : error ≠ "" := by
  cases g with
  | flag arg hflag => cases h
  | valued arg value hvalued =>
    simp only [write] at h
    split at h
    next n _ => exact read_error (map_error h)
    next =>
      rcases Except.error.inj h with rfl
      simp [String.append_eq_empty_iff]

end Group

/-! One turn of the loop. -/

theorem parseLoop_help {arg : String} (hhelp : IsHelp arg) (width : ℕ) (rest : List String)
    (out : Options) : parseLoop width (arg :: rest) out = (none, "") := by
  unfold IsHelp at hhelp
  unfold parseLoop
  rw [if_pos hhelp]

theorem parseLoop_flag {arg : String} (hhelp : ¬ IsHelp arg) (hflag : IsFlag arg) (width : ℕ)
    (rest : List String) (out : Options) :
    parseLoop width (arg :: rest) out = parseLoop width rest ((applyFlag arg out).getD out) := by
  unfold IsHelp at hhelp
  rcases Option.isSome_iff_exists.mp (applyFlag_isSome hflag out) with ⟨next, hnext⟩
  rw [hnext]
  conv_lhs => unfold parseLoop
  simp only [if_neg hhelp, hnext, Option.getD_some]

theorem parseLoop_missing {arg : String} (hhelp : ¬ IsHelp arg) (hflag : ¬ IsFlag arg) (width : ℕ)
    (out : Options) : parseLoop width [arg] out = (none, "missing value for option " ++ arg) := by
  unfold IsHelp at hhelp
  unfold parseLoop
  simp only [if_neg hhelp, applyFlag_eq_none hflag]

theorem parseLoop_valued {arg : String} (hhelp : ¬ IsHelp arg) (hflag : ¬ IsFlag arg) (width : ℕ)
    (value : String) (rest : List String) (out : Options) :
    parseLoop width (arg :: value :: rest) out =
      match applyValued width arg value out with
      | .error error => (none, error)
      | .ok options => parseLoop width rest options := by
  unfold IsHelp at hhelp
  conv_lhs => unfold parseLoop
  cases happly : applyValued width arg value out with
  | error error => simp only [if_neg hhelp, applyFlag_eq_none hflag, happly]
  | ok options => simp only [if_neg hhelp, applyFlag_eq_none hflag, happly]

/-- What `parse` returns for some groups and what comes behind them: unless it refuses a group,
every group is a write. -/
def outcome (width : ℕ) (contents : ∀ n, Content n) (gs : List Group) (end_ : Ending) :
    Option Options × String :=
  match gs.mapM (Group.write width) with
  | .error error => (none, error)
  | .ok ws => end_.result (build (writeAll contents ws))

theorem outcome_cons {width : ℕ} {g : Group} {w : Write Content} (hwrite : g.write width = .ok w)
    (contents : ∀ n, Content n) (gs : List Group) (end_ : Ending) :
    outcome width contents (g :: gs) end_ =
      outcome width (KeyedWrites.write contents w) gs end_ := by
  unfold outcome
  rw [List.mapM_cons, hwrite]
  cases hrest : gs.mapM (Group.write width) <;> rfl

theorem outcome_cons_error {width : ℕ} {g : Group} {error : String}
    (hwrite : g.write width = .error error) (contents : ∀ n, Content n) (gs : List Group)
    (end_ : Ending) : outcome width contents (g :: gs) end_ = (none, error) := by
  unfold outcome
  rw [List.mapM_cons, hwrite]
  rfl

theorem parseLoop_build (width : ℕ) (args : List String) (contents : ∀ n, Content n) :
    parseLoop width args (build contents) =
      outcome width contents (readArgs args).1 (readArgs args).2 := by
  induction args using readArgs.induct generalizing contents with
  | case1 => rfl
  | case2 arg rest hhelp =>
    rw [parseLoop_help hhelp, readArgs, dif_pos hhelp]
    rfl
  | case3 arg rest hhelp hflag ih =>
    rcases Group.valid_iff.mp (Group.valid_flag width hflag) with ⟨w, hwrite⟩
    have happly := Group.apply_build width contents (.flag arg hflag)
    rw [hwrite] at happly
    rw [parseLoop_flag hhelp hflag, Except.ok.inj happly, ih, readArgs, dif_neg hhelp,
      dif_pos hflag]
    exact (outcome_cons hwrite ..).symm
  | case4 arg hhelp hflag =>
    rw [parseLoop_missing hhelp hflag, readArgs, dif_neg hhelp, dif_neg hflag]
    rfl
  | case5 arg hhelp hflag value rest ih =>
    have happly := Group.apply_build width contents (.valued arg value ⟨hhelp, hflag⟩)
    simp only [Group.apply] at happly
    rw [parseLoop_valued hhelp hflag, happly, readArgs, dif_neg hhelp, dif_neg hflag]
    cases hwrite : Group.write width (.valued arg value ⟨hhelp, hflag⟩) with
    | error error => exact (outcome_cons_error hwrite ..).symm
    | ok w => exact (ih _).trans (outcome_cons hwrite ..).symm

/-- `parse` writes the groups of the argument vector to the defaults. -/
theorem parse_eq (width : ℕ) (argv : List String) :
    parse width argv = outcome width defaults (groups argv) (ending argv) :=
  parseLoop_build width (argv.drop 1) defaults

/-! What `parse` returns, by whether it accepts the groups. -/

theorem outcome_valid {width : ℕ} {gs : List Group} (h : ∀ g ∈ gs, g.Valid width)
    (contents : ∀ n, Content n) (end_ : Ending) :
    ∃ ws, gs.mapM (Group.write width) = .ok ws ∧
      outcome width contents gs end_ = end_.result (build (writeAll contents ws)) := by
  have hws : ∃ ws, gs.mapM (Group.write width) = .ok ws := by
    induction gs with
    | nil => exact ⟨[], rfl⟩
    | cons g gs ih =>
      rcases List.forall_mem_cons.mp h with ⟨hg, hgs⟩
      rcases Group.valid_iff.mp hg with ⟨w, hw⟩
      rcases ih hgs with ⟨ws, hws⟩
      exact ⟨w :: ws, by rw [List.mapM_cons, hw, hws]; rfl⟩
  rcases hws with ⟨ws, hws⟩
  exact ⟨ws, hws, by rw [outcome, hws]⟩

theorem outcome_invalid {width : ℕ} {gs : List Group} (h : ∃ g ∈ gs, ¬ g.Valid width)
    (contents : ∀ n, Content n) (end_ : Ending) :
    ∃ error, error ≠ "" ∧ outcome width contents gs end_ = (none, error) := by
  induction gs generalizing contents with
  | nil => simp at h
  | cons g gs ih =>
    cases hwrite : g.write width with
    | error error =>
      exact ⟨error, Group.write_error hwrite, outcome_cons_error hwrite contents gs end_⟩
    | ok w =>
      have hg : g.Valid width := Group.valid_iff.mpr ⟨w, hwrite⟩
      rcases h with ⟨bad, hmem, hbad⟩
      rcases List.mem_cons.mp hmem with rfl | hrest
      · exact absurd hg hbad
      · rw [outcome_cons hwrite]
        exact ih ⟨bad, hrest, hbad⟩ _

/-- Everything the parser looks at is in order; it may still end at a help option. -/
def Accepted (width : ℕ) (argv : List String) : Prop :=
  (∀ g ∈ groups argv, g.Valid width) ∧ ∀ arg, ending argv ≠ .missing arg

theorem parse_accepted {width : ℕ} {argv : List String} (h : Accepted width argv) :
    (parse width argv).2 = "" := by
  rcases outcome_valid h.1 defaults (ending argv) with ⟨ws, -, houtcome⟩
  rw [parse_eq, houtcome]
  cases hend : ending argv with
  | complete => rfl
  | help => rfl
  | missing arg => exact absurd hend (h.2 arg)

theorem parse_refused {width : ℕ} {argv : List String} (h : ¬ Accepted width argv) :
    (parse width argv).1 = none ∧ (parse width argv).2 ≠ "" := by
  rw [parse_eq]
  by_cases hvalid : ∀ g ∈ groups argv, g.Valid width
  · rcases outcome_valid hvalid defaults (ending argv) with ⟨ws, -, houtcome⟩
    rw [houtcome]
    cases hend : ending argv with
    | missing arg => exact ⟨rfl, by simp [Ending.result, String.append_eq_empty_iff]⟩
    | complete => exact absurd ⟨hvalid, by simp [hend]⟩ h
    | help => exact absurd ⟨hvalid, by simp [hend]⟩ h
  · simp only [not_forall, exists_prop] at hvalid
    rcases outcome_invalid hvalid defaults (ending argv) with ⟨error, hne, houtcome⟩
    rw [houtcome]
    exact ⟨rfl, hne⟩

theorem parse_options {width : ℕ} {argv : List String} {options : Options}
    (h : (parse width argv).1 = some options) :
    Accepted width argv ∧ ending argv = .complete ∧ ∃ ws,
      (groups argv).mapM (Group.write width) = .ok ws ∧ options = build (writeAll defaults ws) := by
  have haccepted : Accepted width argv := by
    by_contra hrefused
    rw [(parse_refused hrefused).1] at h
    cases h
  rcases outcome_valid haccepted.1 defaults (ending argv) with ⟨ws, hws, houtcome⟩
  rw [parse_eq, houtcome] at h
  cases hend : ending argv with
  | complete =>
    rw [hend] at h
    exact ⟨haccepted, rfl, ws, hws, (Option.some.inj h).symm⟩
  | help => simp [hend, Ending.result] at h
  | missing arg => simp [hend, Ending.result] at h

/-! The values given to one option. -/

def Group.valueOf (n : OptionName) : Group → Option String
  | .flag _ _ => none
  | .valued arg value _ => if arg = n.text then some value else none

def values (n : OptionName) (argv : List String) : List String :=
  (groups argv).filterMap (Group.valueOf n)

theorem find_text {n : OptionName} (hn : n ∈ OptionName.valued) :
    (OptionName.valued.find? fun m => m.text = n.text) = some n := by
  revert n
  decide

theorem Group.write_value {width : ℕ} {g : Group} {n : OptionName} {value : String}
    (hn : n ∈ OptionName.valued) (h : g.valueOf n = some value) :
    g.write width = (n.read width value).map (Sigma.mk n) := by
  cases g with
  | flag arg hflag => cases h
  | valued arg text hvalued =>
    simp only [valueOf, Option.ite_none_right_eq_some, Option.some.injEq] at h
    rcases h with ⟨rfl, rfl⟩
    simp only [write, find_text hn]

theorem Group.write_name {width : ℕ} {g : Group} {w : Write Content}
    (hwrite : g.write width = .ok w) : w.1.text = g.arg := by
  cases g with
  | flag arg hflag =>
    rcases Except.ok.inj hwrite with rfl
    rcases hflag with rfl | rfl <;> rfl
  | valued arg value hvalued =>
    simp only [write] at hwrite
    split at hwrite
    next n hfind =>
      cases hread : n.read width value with
      | error error => simp [hread, Except.map] at hwrite
      | ok v =>
        rw [hread] at hwrite
        rcases Except.ok.inj hwrite with rfl
        exact (find_option hfind).2
    next => cases hwrite

/-- A group writes an option's field exactly if it gives the option a value it can read. -/
theorem Group.written_eq (width : ℕ) (g : Group) {n : OptionName} (hn : n ∈ OptionName.valued) :
    (g.write width).toOption.bind (writtenTo n) =
      (g.valueOf n).bind fun value => (n.read width value).toOption := by
  cases hvalue : g.valueOf n with
  | some value =>
    rw [write_value hn hvalue]
    cases hread : n.read width value <;> simp [hread, Except.map, Except.toOption]
  | none =>
    cases hwrite : g.write width with
    | error error => rfl
    | ok w =>
      apply writtenTo_of_ne
      rintro rfl
      have hname := write_name hwrite
      cases g with
      | flag arg hflag =>
        rcases Except.ok.inj hwrite with rfl
        revert hn
        split_ifs <;> simp [OptionName.valued]
      | valued arg value hvalued => simp [valueOf, hname, Group.arg] at hvalue

theorem mapM_write {width : ℕ} {gs : List Group} {ws : List (Write Content)}
    (hws : gs.mapM (Group.write width) = .ok ws) :
    ws = gs.filterMap fun g => (g.write width).toOption := by
  induction gs generalizing ws with
  | nil => exact (Except.ok.inj hws).symm
  | cons g gs ih =>
    rw [List.mapM_cons] at hws
    cases hwrite : g.write width with
    | error error => simp [hwrite, bind, Except.bind] at hws
    | ok w =>
      cases hrest : gs.mapM (Group.write width) with
      | error error => simp [hwrite, hrest, bind, Except.bind] at hws
      | ok rest =>
        rw [hwrite, hrest] at hws
        rcases Except.ok.inj hws with rfl
        simp [hwrite, Except.toOption, ih hrest]

theorem writes_of_option {width : ℕ} {gs : List Group} {ws : List (Write Content)} {n : OptionName}
    (hn : n ∈ OptionName.valued) (hws : gs.mapM (Group.write width) = .ok ws) :
    ws.filterMap (writtenTo n) = (gs.filterMap (Group.valueOf n)).filterMap fun value =>
      (n.read width value).toOption := by
  rw [mapM_write hws, List.filterMap_filterMap, List.filterMap_filterMap]
  exact List.filterMap_congr fun g _ => Group.written_eq width g hn

theorem Accepted.read {width : ℕ} {argv : List String} (h : Accepted width argv) {n : OptionName}
    (hn : n ∈ OptionName.valued) {value : String} (hvalue : value ∈ values n argv) :
    ∃ v, n.read width value = .ok v := by
  rcases List.mem_filterMap.mp hvalue with ⟨g, hg, hgiven⟩
  rcases Group.valid_iff.mp (h.1 g hg) with ⟨w, hw⟩
  rw [Group.write_value hn hgiven] at hw
  cases hread : n.read width value with
  | error error => simp [hread, Except.map] at hw
  | ok v => exact ⟨v, rfl⟩

/-- The last value decides what `parse` returns, and without one the default stays. -/
theorem parse_last_value {width : ℕ} {argv : List String} {options : Options}
    (h : (parse width argv).1 = some options) :
    ∃ contents, options = build contents ∧ ∀ n ∈ OptionName.valued,
      values n argv = [] ∧ contents n = defaults n ∨
      ∃ value, (values n argv).getLast? = some value ∧ n.read width value = .ok (contents n) := by
  rcases parse_options h with ⟨haccepted, -, ws, hws, rfl⟩
  refine ⟨_, rfl, fun n hn => ?_⟩
  have hgiven : (groups argv).filterMap (Group.valueOf n) = values n argv := rfl
  rw [writeAll_apply, writes_of_option hn hws, hgiven]
  cases hlast : (values n argv).getLast? with
  | none =>
    have hnone := List.getLast?_eq_none_iff.mp hlast
    exact Or.inl ⟨hnone, by rw [hnone]; rfl⟩
  | some value =>
    rcases List.getLast?_eq_some_iff.mp hlast with ⟨earlier, hvalues⟩
    have hmem : value ∈ values n argv := List.mem_of_getLast? hlast
    rcases haccepted.read hn hmem with ⟨v, hv⟩
    refine Or.inr ⟨value, rfl, ?_⟩
    rw [hv, hvalues]
    simp [hv, Except.toOption]

end AebNode.CommandLine
