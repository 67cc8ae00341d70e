import Marginalia.FileTree.Change
import Marginalia.Value

/-! # Failures

Everything that can end a run, as its cause. A cause that is part of the contract has a message;
the others only have a kind.
-/
namespace Marginalia

open Text

/-- What a failed operation on files was for. -/
inductive Task where
  | stat (path : List Char)
  | list (path : List Char)
  | read (path : List Char)
  | create (path : List Char)
  | copyAssets (target : List Char)
  | copyStylesheet (target : List Char)
  | write (path : List Char)
deriving DecidableEq

def Task.message : Task → List Char
  | stat p => "Failed to stat '".toList ++ p ++ ['\'']
  | list p => "Failed to list '".toList ++ p ++ ['\'']
  | read p => "Failed to read '".toList ++ p ++ ['\'']
  | create p => "Failed to create '".toList ++ p ++ ['\'']
  | copyAssets p => "Failed to copy layout assets to '".toList ++ p ++ ['\'']
  | copyStylesheet p => "Failed to copy stylesheet to '".toList ++ p ++ ['\'']
  | write p => "Failed to write '".toList ++ p ++ ['\'']

/-- What is wrong with options. -/
inductive OptionFault where
  | unknown (names : List (List Char))
  | noStylesheet (css : List Char)
  | markdownNoMapping
  | extensionsNoList
  | settingsNoMapping
  /-- An option file that holds no mapping. -/
  | rootNoMapping (file : Name)
  /-- A file of Markdown options that holds no mapping. -/
  | markdownRootNoMapping (file : Name)
  | unreadable (path : List Char) (fault : FileFault)
  | unparsable (file : Name)
deriving DecidableEq

def OptionFault.message : OptionFault → List Char
  | unknown names => "Unknown option(s): ".toList ++ join [',', ' '] names
  | noStylesheet css => "Stylesheet '".toList ++ css ++ "' does not exist".toList
  | markdownNoMapping => "Markdown options must be a mapping".toList
  | extensionsNoList => "Markdown 'extensions' must be a list of extension names".toList
  | settingsNoMapping => "Markdown 'extension_configs' must be a mapping".toList
  | rootNoMapping file => file ++ " must contain a mapping at the root".toList
  | markdownRootNoMapping file => file ++ " must contain a mapping of Markdown options".toList
  | unreadable path fault => "Failed to read ".toList ++ path ++ ": ".toList ++ fault.message
  | unparsable file => "Failed to parse ".toList ++ file

/-- What is wrong with a template. -/
inductive TemplateFault where
  | syntactic
  /-- A filter or a test nobody knows. -/
  | unknownWord
  | undefined
  /-- A call with the wrong arguments, or a variable given twice. -/
  | type
  /-- Templates that include one another without end. -/
  | tooDeep
  /-- A text with bytes that are no characters. -/
  | notText
  | missing (name dir : List Char)
  /-- A name that leaves the directory of templates. -/
  | outside (name : List Char)
deriving DecidableEq

def TemplateFault.message : TemplateFault → List Char
  | missing name dir => quoted name ++ " not found in search path: ".toList ++ quoted dir
  | outside name => name
  | _ => []

def TemplateFault.isMissing : TemplateFault → Bool
  | missing .. | outside _ => true
  | _ => false

/-- Why a run ends early. -/
inductive Failure where
  | noSources
  | badLayout (layout : List Char)
  | noTemplate (template : List Char)
  | unsupported (tag : List Char)
  | noSuchPath (path : List Char)
  /-- A task failed; the text says why. -/
  | failed (task : Task) (why : List Char)
  | options (fault : OptionFault)
  /-- A fault of the file system that no task explains. -/
  | file (fault : FileFault)
  | template (fault : TemplateFault)
  /-- A splitter that cannot be called was registered. -/
  | splitterType (tag : List Char)
  /-- A splitter that cannot be called was used. -/
  | uncallable
  | noMapping (fault : Value.MapFault)
  /-- A path or an option name that is no text. -/
  | noText
  /-- The home directory of a user nobody knows. -/
  | unknownHome
  /-- Links that lead in a circle. -/
  | linkCircle
  /-- An option file with bytes that are no characters. -/
  | undecodable
  /-- An option file with a scalar that is not what its tag says. -/
  | scalar (fault : Value.ScalarFault)
  | unknownExtension (name : List Char)
  /-- A name that is no Markdown extension. -/
  | noExtension (name : List Char)
  | unknownSetting (extension name : List Char)
  /-- A setting of the wrong type. -/
  | settingType
  /-- A setting with a text that is no number. -/
  | settingValue
deriving DecidableEq

/-- The message of a failure; empty where only the kind counts. -/
def Failure.message : Failure → List Char
  | noSources => "No valid sources provided.".toList
  | badLayout layout => "Not a valid layout: '".toList ++ layout ++ ['\'']
  | noTemplate name => "Template file '".toList ++ name ++ "' is missing.".toList
  | unsupported tag => "Unsupported file type: '".toList ++ tag ++ ['\'']
  | noSuchPath path => "No such file or directory: '".toList ++ path ++ ['\'']
  | failed task why => task.message ++ ": ".toList ++ why
  | options fault => fault.message
  | file fault => fault.message
  | template fault => fault.message
  | splitterType tag => "Splitter for '".toList ++ tag ++ "' must be callable".toList
  | _ => []

/-- Whether the command line ends with a message for this failure; any other failure escapes. -/
def Failure.isReported : Failure → Bool
  | noSources | badLayout _ | noTemplate _ | unsupported _ | noSuchPath _ | failed .. | options _ => true
  | file .nulInPath => false
  | file _ => true
  | template fault => fault.isMissing
  | _ => false

/-- Whether a fault comes from the system, so that a task takes the blame; a path that is no text for
the system is the caller's fault. -/
def FileFault.isSystem : FileFault → Bool
  | .nulInPath => false
  | _ => true

def Failure.during (task : Task) (fault : FileFault) : Failure :=
  if fault.isSystem then .failed task fault.message else .file fault

end Marginalia
