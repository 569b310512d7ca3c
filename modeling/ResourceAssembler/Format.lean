/-!
# Container formats

A format is told by its name in any case of its letters, and gives an artifact its extension. If no
format is chosen, the classic one is meant.
-/

namespace ResourceAssembler

/-- The container variants a resource file can be written as. -/
inductive Format where
  | classic
  | extended
  | rez
deriving DecidableEq, Repr

namespace Format

instance : Inhabited Format := ⟨classic⟩

def name : Format → String
  | classic => "classic"
  | extended => "extended"
  | rez => "rez"

instance : ToString Format := ⟨name⟩

/-- The extension of an artifact in this format, without the dot. -/
def extension : Format → String
  | classic => "ndat"
  | extended => "kdat"
  | rez => "rez"

/-- The format of exactly this lower-case name. -/
def ofName? : String → Option Format
  | "classic" => some classic
  | "extended" => some extended
  | "rez" => some rez
  | _ => none

/-- ASCII letters in lower case, all other characters as they are. -/
def lowerAscii (text : String) : String :=
  String.ofList (text.toList.map Char.toLower)

/-- Reads a format's name without regard to the case of ASCII letters. -/
def ofString? (text : String) : Option Format :=
  ofName? (lowerAscii text)

end Format

end ResourceAssembler
