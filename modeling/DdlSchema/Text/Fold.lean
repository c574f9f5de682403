/-! ASCII case folding. Letters outside ASCII keep their case. -/
namespace DdlSchema
namespace Text

def lower (s : String) : String := String.ofList (s.toList.map Char.toLower)

def upper (s : String) : String := String.ofList (s.toList.map Char.toUpper)

/-- Equal up to the case of ASCII letters. -/
def sameWord (s t : String) : Bool := lower s == lower t

@[simp] theorem sameWord_iff {s t : String} : sameWord s t = true ↔ lower s = lower t := by
  simp [sameWord]

end Text
end DdlSchema
