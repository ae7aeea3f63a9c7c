-- Settings: what a processor and its shader programs are built with besides the
-- transforms. They are kept in YAML documents, one key to a setting.
import ColorPipeline.Image.BitDepth
import ColorPipeline.Lut.Error
import ColorPipeline.Pipeline.Flags
import ColorPipeline.Shader.Program
import ColorPipeline.Yaml.Mapping
import ColorPipeline.Yaml.Writing

namespace ColorPipeline

/-- How far pipelines are optimized. -/
inductive OptimizationLevel where
  | none
  | lossless
  | good
  | best
  | draft
deriving DecidableEq, Inhabited

namespace OptimizationLevel

def name : OptimizationLevel → String
  | none => "none"
  | lossless => "lossless"
  | good => "good"
  | best => "best"
  | draft => "draft"

def all : List OptimizationLevel := [none, lossless, good, best, draft]

/-- The level with a given name. -/
def ofName? (name : String) : Option OptimizationLevel := all.find? fun l => l.name == name

/-- The simplifications of a level. -/
def flags : OptimizationLevel → OptimizationFlags
  | none => .none
  | lossless => .lossless
  | good => .all
  | best => .lossless
  | draft => .all

end OptimizationLevel

structure Settings where
  optimization : OptimizationLevel := .lossless
  inputDepth : BitDepth := .float
  outputDepth : BitDepth := .float
  language : ShaderLanguage := .glsl330
  resourceName : String := "ocio"
  functionName : String := "OCIOMain"
deriving DecidableEq

/-- What can go wrong with a document of settings. -/
inductive SettingsError where
  | read (fault : ReadFault)
  /-- The document is not a mapping of keys to values of the right kind. -/
  | malformed
  | unknownDepth (text : String)
deriving DecidableEq

def SettingsError.message : SettingsError → String
  | .read fault => fault.message
  | .malformed => "the settings are malformed"
  | .unknownDepth text => s!"unknown bit depth '{text}'"

namespace Settings

/-- The keys of the settings, in the order in which they are written. -/
inductive Key where
  | optimization
  | inputDepth
  | outputDepth
  | language
  | resourceName
  | functionName
deriving DecidableEq

namespace Key

def name : Key → String
  | optimization => "optimization"
  | inputDepth => "input_bit_depth"
  | outputDepth => "output_bit_depth"
  | language => "gpu_language"
  | resourceName => "resource_prefix"
  | functionName => "function_name"

def all : List Key :=
  [optimization, inputDepth, outputDepth, language, resourceName, functionName]

def ofName? (name : String) : Option Key := all.find? fun k => k.name == name

end Key

/-! ## Reading -/

/-- The bit depth with a code. -/
def readDepth (text : String) : Except SettingsError BitDepth :=
  match BitDepth.ofCode? text with
  | some d => .ok d
  | none => .error (.unknownDepth text)

/-- The value that a name stands for. -/
def named {α : Type} (found : Option α) : Except SettingsError α :=
  match found with
  | some a => .ok a
  | none => .error .malformed

/-- The name of a choice: its text, or its tag where that begins with an exclamation
mark. Besides a tag, only a word for nothing may stand. -/
def choiceName (value : Yaml.Scalar) : Option String :=
  let ofTag := match value.tag with
    | some (0x21 :: octets) => String.fromUTF8? ⟨octets.toArray⟩
    | _ => none
  match ofTag with
  | none => some value.text
  | some name =>
    if value.isPlain && ["", "~", "null", "Null", "NULL"].contains value.text then some name else none

/-- The settings with the value of one key. -/
def set (s : Settings) (key : Key) (value : Yaml.Scalar) : Except SettingsError Settings :=
  match key with
  | .optimization =>
    (named ((choiceName value).bind OptimizationLevel.ofName?)).map fun v => { s with optimization := v }
  | .inputDepth => (readDepth value.text).map fun v => { s with inputDepth := v }
  | .outputDepth => (readDepth value.text).map fun v => { s with outputDepth := v }
  | .language =>
    (named ((choiceName value).bind ShaderLanguage.ofName?)).map fun v => { s with language := v }
  | .resourceName => .ok { s with resourceName := value.text }
  | .functionName => .ok { s with functionName := value.text }

/-- The settings with the values of entries, where `seen` has the keys before
them. Other keys say nothing, and no key stands twice. -/
def setAll (s : Settings) (seen : List Key) : List Yaml.Entry → Except SettingsError Settings
  | [] => .ok s
  | ⟨.collection, _⟩ :: _ => .error .malformed
  | ⟨.scalar name, value⟩ :: rest =>
    match Key.ofName? name.text with
    | none => setAll s seen rest
    | some key =>
      if seen.contains key then .error .malformed
      else
        match value with
        | .collection => .error .malformed
        | .scalar value =>
          match s.set key value with
          | .ok next => setAll next (key :: seen) rest
          | .error e => .error e

/-- The settings in a document. What a document does not set has its default. -/
def parse (text : String) : Except SettingsError Settings := do
  let document := Yaml.readMapping text
  let s ← setAll {} [] document.entries
  if document.isComplete then return s else throw .malformed

/-- The settings in a file. -/
def ofFile (bytes : Option ByteArray) : Except SettingsError Settings :=
  match bytes with
  | none => .error (.read .notFound)
  | some bytes =>
    match String.fromUTF8? bytes with
    | none => .error (.read .notText)
    | some text => parse text

/-! ## Writing -/

/-- The text of the value of a key. -/
def get (s : Settings) : Key → String
  | .optimization => s.optimization.name
  | .inputDepth => s.inputDepth.code
  | .outputDepth => s.outputDepth.code
  | .language => s.language.name
  | .resourceName => s.resourceName
  | .functionName => s.functionName

/-- The settings as a document. -/
def write (s : Settings) : String :=
  String.join (Key.all.map fun key => Yaml.entryText key.name (s.get key))

/-! ## Use -/

/-- The simplifications of a pipeline: those that the environment names, if it does,
and otherwise those of the level. -/
def flags (s : Settings) (environment : Option String) : OptimizationFlags :=
  (environment.bind OptimizationFlags.parse).getD s.optimization.flags

/-- The settings of shader programs. -/
def shader (s : Settings) : ShaderSettings :=
  { language := s.language, functionName := s.functionName, resourceName := s.resourceName }

end Settings

end ColorPipeline
