/-
  The settings of the library.

  Every setting has a default, can be given by name, and can come from an environment variable
  whose name is that of the setting behind `PATHFORGE_`, in any case. Given values win over the
  environment. Both are converted as values of documents are.
-/
import Retouch.Convert

namespace Retouch

/-- The settings of the library. -/
structure Settings where
  /-- The quiet time before a change enters the history. -/
  historyDebounceMs : Int := 300
  /-- The quiet time before a preview is made. -/
  previewDebounceMs : Int := 300
  /-- The most states that the history holds. -/
  maxHistorySize : Int := 50
  /-- How near an edge has to be to snap. -/
  snapThresholdPx : Float := 8.0
  /-- How near the middle has to be to snap, in percent of the canvas. -/
  centerSnapPercent : Float := 2.0
  /-- The least extent of a layer that is resized by hand. -/
  minLayerSizePx : Float := 20.0
  /-- How far a copy of a layer is moved. -/
  duplicateOffsetPx : Int := 10
  previewFormat : String := "webp"
  /-- How long entering the crop mode waits for its preview. -/
  previewLoadTimeoutS : Float := 10.0
  thumbnailSize : Int := 200
  thumbnailQuality : Int := 80
  templateVersion : String := "1.0"
  templateNameMaxLength : Int := 100
  baseUrl : String := ""
  secret : String := ""
  unsigned : Bool := false
  signerType : String := "sha1"
  /-- To how many characters signatures are cut, zero for not at all. -/
  signerTruncate : Int := 0
  deriving Inhabited

namespace Settings

/-- The names of the settings, in order. -/
def names : List String :=
  ["HISTORY_DEBOUNCE_MS", "PREVIEW_DEBOUNCE_MS", "MAX_HISTORY_SIZE", "SNAP_THRESHOLD_PX",
    "CENTER_SNAP_PERCENT", "MIN_LAYER_SIZE_PX", "DUPLICATE_OFFSET_PX", "PREVIEW_FORMAT",
    "PREVIEW_LOAD_TIMEOUT_S", "THUMBNAIL_SIZE", "THUMBNAIL_QUALITY", "TEMPLATE_VERSION",
    "TEMPLATE_NAME_MAX_LENGTH", "IMAGOR_BASE_URL", "IMAGOR_SECRET", "IMAGOR_UNSAFE",
    "IMAGOR_SIGNER_TYPE", "IMAGOR_SIGNER_TRUNCATE"]

/-- The names of the two folders, which are not read here. -/
def folderNames : List String := ["BASE_DIR", "TEMPLATES_DIR"]

/-- What stands before the name of a setting in the environment. -/
def environmentWord : String := "PATHFORGE_"

/-- The values that environment variables give, under the names of the settings. The last of
several variables that differ in case counts. -/
def ofEnvironment (pairs : List (String × String)) : Entries :=
  names.filterMap fun name =>
    let wanted := Convert.lowerAscii (environmentWord ++ name)
    let found := pairs.reverse.find? fun (n, _) => Convert.lowerAscii n = wanted
    found.map fun (_, text) => (name, .text text)

/-- Reads a setting, or takes its default. -/
def setting {α : Type} (es : Entries) (name : String) (default : α) (c : Value → Check α) :
    Check α :=
  match es.lookup name with
  | some v => Check.within (.key name) (c v)
  | none => return default

/-- Reads settings from given values and the environment. -/
def read (values environment : Entries) : Check Settings := do
  let es := values.foldl (fun es (k, v) => Entries.put k v es) environment
  let d : Settings := {}
  let historyDebounceMs ← setting es "HISTORY_DEBOUNCE_MS" d.historyDebounceMs Convert.int
  let previewDebounceMs ← setting es "PREVIEW_DEBOUNCE_MS" d.previewDebounceMs Convert.int
  let maxHistorySize ← setting es "MAX_HISTORY_SIZE" d.maxHistorySize Convert.int
  let snapThresholdPx ← setting es "SNAP_THRESHOLD_PX" d.snapThresholdPx Convert.double
  let centerSnapPercent ← setting es "CENTER_SNAP_PERCENT" d.centerSnapPercent Convert.double
  let minLayerSizePx ← setting es "MIN_LAYER_SIZE_PX" d.minLayerSizePx Convert.double
  let duplicateOffsetPx ← setting es "DUPLICATE_OFFSET_PX" d.duplicateOffsetPx Convert.int
  let previewFormat ← setting es "PREVIEW_FORMAT" d.previewFormat Convert.text
  let previewLoadTimeoutS ←
    setting es "PREVIEW_LOAD_TIMEOUT_S" d.previewLoadTimeoutS Convert.double
  let thumbnailSize ← setting es "THUMBNAIL_SIZE" d.thumbnailSize Convert.int
  let thumbnailQuality ← setting es "THUMBNAIL_QUALITY" d.thumbnailQuality Convert.int
  let templateVersion ← setting es "TEMPLATE_VERSION" d.templateVersion Convert.text
  let templateNameMaxLength ←
    setting es "TEMPLATE_NAME_MAX_LENGTH" d.templateNameMaxLength Convert.int
  let baseUrl ← setting es "IMAGOR_BASE_URL" d.baseUrl Convert.text
  let secret ← setting es "IMAGOR_SECRET" d.secret Convert.text
  let unsigned ← setting es "IMAGOR_UNSAFE" d.unsigned Convert.truth
  let signerType ← setting es "IMAGOR_SIGNER_TYPE" d.signerType Convert.text
  let signerTruncate ← setting es "IMAGOR_SIGNER_TRUNCATE" d.signerTruncate Convert.int
  for (name, _) in values do
    unless names.contains name || folderNames.contains name do
      Check.within (.key name) (Check.note .unexpected ())
  return {
    historyDebounceMs, previewDebounceMs, maxHistorySize, snapThresholdPx, centerSnapPercent,
    minLayerSizePx, duplicateOffsetPx, previewFormat, previewLoadTimeoutS, thumbnailSize,
    thumbnailQuality, templateVersion, templateNameMaxLength, baseUrl, secret, unsigned,
    signerType, signerTruncate }

/-- The settings as entries, under their names. -/
def write (s : Settings) : Entries :=
  names.zip
    [.int s.historyDebounceMs, .int s.previewDebounceMs, .int s.maxHistorySize,
      .float s.snapThresholdPx, .float s.centerSnapPercent, .float s.minLayerSizePx,
      .int s.duplicateOffsetPx, .text s.previewFormat, .float s.previewLoadTimeoutS,
      .int s.thumbnailSize, .int s.thumbnailQuality, .text s.templateVersion,
      .int s.templateNameMaxLength, .text s.baseUrl, .text s.secret, .bool s.unsigned,
      .text s.signerType, .int s.signerTruncate]

end Settings

end Retouch
