import PromTree.Server.Api

namespace PromTree.ServerSettings

def fetch {m : Type → Type} [Monad m] (send : String → m (Option HttpResponse))
    (s : ServerSettings) (pathPrefix : String) (cancelled : Bool) (call : ApiCall) :
    m (Except ApiError HttpResponse) :=
  match s.resourceUrl pathPrefix call.resource with
  | .error error => pure (.error error)
  | .ok url =>
    if cancelled then pure (.error .aborted)
    else do
      match ← send url with
      | some response => pure (.ok response)
      | none => pure (.error .malformed)

def data {m : Type → Type} [Monad m] (send : String → m (Option HttpResponse))
    (s : ServerSettings) (pathPrefix : String) (cancelled : Bool) (call : ApiCall) :
    m (Except ApiError Json) := do
  pure ((← s.fetch send pathPrefix cancelled call).bind call.data)

def query {m : Type → Type} [Monad m] (send : String → m (Option HttpResponse))
    (s : ServerSettings) (pathPrefix : String) (cancelled : Bool) (time : Option Binary64)
    (text : String) : m (Except ApiError QueryResult) := do
  let response ← s.fetch send pathPrefix cancelled (.query text time)
  pure (response.bind fun r => r.data QueryResult.ofJson?)

end PromTree.ServerSettings
