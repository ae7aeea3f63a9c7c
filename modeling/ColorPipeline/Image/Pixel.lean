-- Pixels: three colour channels, with or without alpha.

namespace ColorPipeline

inductive Channel where
  | red
  | green
  | blue
deriving DecidableEq

/-- The letter of a channel in shader code. -/
def Channel.letter : Channel → String
  | .red => "r"
  | .green => "g"
  | .blue => "b"

/-- A value for each colour channel. -/
structure Rgb (S : Type) where
  red : S
  green : S
  blue : S
deriving DecidableEq, Inhabited

namespace Rgb

variable {S T : Type}

def get (p : Rgb S) : Channel → S
  | .red => p.red
  | .green => p.green
  | .blue => p.blue

def ofFn (f : Channel → S) : Rgb S := ⟨f .red, f .green, f .blue⟩

/-- The same value in every channel. -/
def gray (v : S) : Rgb S := ⟨v, v, v⟩

def map (f : S → T) (p : Rgb S) : Rgb T := ⟨f p.red, f p.green, f p.blue⟩

def toList (p : Rgb S) : List S := [p.red, p.green, p.blue]

/-- The pixel with another value in one channel. -/
def set (p : Rgb S) (c : Channel) (v : S) : Rgb S :=
  match c with
  | .red => { p with red := v }
  | .green => { p with green := v }
  | .blue => { p with blue := v }

@[simp] theorem get_ofFn (f : Channel → S) (c : Channel) : (ofFn f).get c = f c := by
  cases c <;> rfl

@[simp] theorem get_map (f : S → T) (p : Rgb S) (c : Channel) : (p.map f).get c = f (p.get c) := by
  cases c <;> rfl

@[simp] theorem get_gray (v : S) (c : Channel) : (gray v).get c = v := by
  cases c <;> rfl

end Rgb

/-- A colour with alpha, or any four values in that order. -/
structure Rgba (S : Type) where
  red : S
  green : S
  blue : S
  alpha : S
deriving DecidableEq, Inhabited

namespace Rgba

variable {S T : Type}

def rgb (p : Rgba S) : Rgb S := ⟨p.red, p.green, p.blue⟩

def ofRgb (c : Rgb S) (alpha : S) : Rgba S := ⟨c.red, c.green, c.blue, alpha⟩

def map (f : S → T) (p : Rgba S) : Rgba T := ⟨f p.red, f p.green, f p.blue, f p.alpha⟩

def zipWith {U : Type} (f : S → T → U) (p : Rgba S) (q : Rgba T) : Rgba U :=
  ⟨f p.red q.red, f p.green q.green, f p.blue q.blue, f p.alpha q.alpha⟩

def toList (p : Rgba S) : List S := [p.red, p.green, p.blue, p.alpha]

/-- The pixel with its colour changed and its alpha kept. -/
def mapRgb (f : Rgb S → Rgb S) (p : Rgba S) : Rgba S := ofRgb (f p.rgb) p.alpha

end Rgba

end ColorPipeline
