import ChannelRelay.Http.Message

/-!
# Routes

What a request asks for, by its path and its method.  A known path that is asked
for with another method answers with the methods it allows.
-/

namespace ChannelRelay

/-- What can be asked for. -/
inductive Route where
  | health
  | metrics
  | webhook
  | slash
deriving DecidableEq, Repr

namespace Route

/-- The route of a path.  A webhook path holds at least one character after `/p/`. -/
def ofPath? (path : String) : Option Route :=
  if path = "/healthz" then some .health
  else if path = "/metrics" then some .metrics
  else if path = "/slash/" then some .slash
  else
    match path.toList with
    | '/' :: 'p' :: '/' :: _ :: _ => some .webhook
    | _ => none

/-- The methods that a route allows. -/
def methods : Route → List String
  | .health | .metrics => ["GET", "HEAD"]
  | .webhook | .slash => ["POST"]

/-- Whether a route reads the body of its requests. -/
def readsBody : Route → Bool
  | .health | .metrics => false
  | .webhook | .slash => true

end Route

end ChannelRelay
