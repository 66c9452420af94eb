import LineCensus.Text.Blank

/-! Estimates of the number of tokens that a language model sees in a text. -/
namespace LineCensus.Tokens

abbrev Encoder := List Char → Option Nat

abbrev Supply := String → Option Encoder

def Supply.empty : Supply := fun _ => none

def preferred : String := "cl100k_base"

def fallback : String := "p50k_base"

def charsPerToken : Nat := 4

structure Session where
  cached : List String := []
  requested : List String := []

/-- Asks for an encoding, unless it has been had before. One that cannot be had is asked for again
the next time. -/
def Session.load (supply : Supply) (name : String) (session : Session) : Option Encoder × Session :=
  if session.cached.contains name then (supply name, session)
  else
    let session := { session with requested := name :: session.requested }
    match supply name with
    | none => (none, session)
    | some encoder => (some encoder, { session with cached := name :: session.cached })

def Session.encoder (supply : Supply) (session : Session) : Option Encoder × Session :=
  match session.load supply preferred with
  | (some encoder, session) => (some encoder, session)
  | (none, session) => session.load supply fallback

/-- The number of tokens in a text: by an encoding if one can be had and takes the text, and by the
number of characters otherwise. The empty text has none, and needs no encoding. -/
def Session.count (supply : Supply) (session : Session) (text : List Char) : Nat × Session :=
  if text.isEmpty then (0, session)
  else
    let (encoder, session) := session.encoder supply
    (((encoder.bind (· text))).getD (text.length / charsPerToken), session)

/-- The plainest encoding: every stretch without blank characters is a token. -/
def wordEncoder : Encoder := fun text => some (Text.words text).length

end LineCensus.Tokens
