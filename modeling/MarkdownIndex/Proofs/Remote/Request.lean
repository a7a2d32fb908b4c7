import MarkdownIndex.Proofs.Net
import MarkdownIndex.Proofs.Program.Trace
import MarkdownIndex.Remote

/-!
# Requests: what a client of the remote notes sends

Every request of a client is one request to the network, or none if it cannot be sent. So a client
is opened up here once, and what follows from its requests needs no look into it.

* `RemoteClient.Carries` — a client with a token that can be sent.
* `get_of_none`, `get_of_unsendable`, `get_of_sendable` — the three things that may happen when
  something is asked for that needs the token.
* `afterLogin`, `login_of_unsendable`, `login_of_sendable` — a login, and what comes of its reply.
-/

namespace MarkdownIndex

open Program Http

namespace RemoteClient

variable {c : RemoteClient} {d : Json.Decoder α} {path token : String} {url : Url}

/-- The headers of a request that needs the token: the token, and nothing else. -/
def bearer (token : String) : List (String × String) := [("authorization", "Bearer " ++ token)]

/-- There is a token, and it can be sent. -/
def Carries (c : RemoteClient) : Prop :=
  ∃ token, c.token = some token ∧ Net.sendable ("Bearer " ++ token) = true

/-- Without a token nothing is sent. -/
theorem get_of_none (h : c.token = none) : c.get d path = return .error .notAuthenticated := by
  simp only [get, h]

/-- With a token that cannot be sent, or to no address, nothing is sent either. -/
theorem get_of_unsendable (htoken : c.token = some token)
    (h : Url.parse? (c.baseUrl ++ path) = none ∨ Net.sendable ("Bearer " ++ token) = false) :
    c.get d path = return .error (.ofSend .unsendable) := by
  simp only [get, htoken]
  rw [Net.send_of_unsendable]
  · rfl
  · exact h.imp_right fun hs => by simp [hs]

/-- Else the token is sent, with nothing but the address. -/
theorem get_of_sendable (htoken : c.token = some token)
    (hsend : Net.sendable ("Bearer " ++ token) = true)
    (hurl : Url.parse? (c.baseUrl ++ path) = some url) :
    c.get d path =
      Program.call (I := Net.interface) (.send url ⟨"GET", url.target, bearer token, []⟩ c.timeout)
        fun r => .done (readReply d (Except.mapError (Net.Loss.error url) r)) := by
  simp only [get, htoken]
  rw [Net.send_of_sendable hurl]
  · rfl
  · simp [hsend]

/-- What comes of the reply to a login. -/
def afterLogin (c : RemoteClient) (reply : Except SendError Reply) :
    Except RemoteError String × RemoteClient :=
  match readReply LoginAnswer.record.decode reply with
  | .error e => (.error e, c)
  | .ok a =>
    if a.token.isEmpty then (.error (.decode "login response has no access_token"), c)
    else (.ok a.email, c.withToken a.token)

variable {credentials : Credentials}

/-- To no address nothing is sent. -/
theorem login_of_unsendable (h : Url.parse? (c.baseUrl ++ "/v1/auth/login/") = none) :
    c.login credentials = return (.error (.ofSend .unsendable), c) := by
  simp only [login, Net.sendJson_of_none h]
  rfl

/-- Else the credentials are sent, and no token. -/
theorem login_of_sendable (hurl : Url.parse? (c.baseUrl ++ "/v1/auth/login/") = some url) :
    c.login credentials =
      Program.call (I := Net.interface) (.send url ⟨"POST", url.target,
          [("content-type", "application/json")], Text.encode credentials.toJson.compactChars⟩
          c.timeout)
        fun r => .done (c.afterLogin (Except.mapError (Net.Loss.error url) r)) := by
  simp only [login, Net.sendJson_of_parse? hurl]
  refine congrArg (Program.call _) (funext fun r => ?_)
  change (match readReply LoginAnswer.record.decode (Except.mapError (Net.Loss.error url) r) with
    | .error e => _
    | .ok a => _) = _
  unfold afterLogin
  split
  · rfl
  · split <;> rfl

end RemoteClient

end MarkdownIndex
