import MarkdownIndex.Net

/-!
# Requests to the network: the ones that are sent, and the ones that are not

A request is sent once, or not at all if its address is none or a header of it cannot be sent.

* `Net.Loss.error` — how the loss of a request is told.
* `Net.send_of_sendable`, `Net.send_of_unsendable` — the two things that may happen.
* `Net.posting`, `Net.sendJson_of_parse?` — JSON can always be sent, if there is such an address.
-/

namespace MarkdownIndex.Net

open Http Text

/-- How the loss of a request is told. -/
def Loss.error (url : Url) : Loss → SendError
  | .timedOut => .timedOut url.toString
  | .unreachable => .unreachable url.toString

variable {method address : String} {headers : List (String × String)} {body : List UInt8}
variable {timeout : Nat} {url : Url}

/-- A request to an address with headers that can be sent is sent once. -/
theorem send_of_sendable (hurl : Url.parse? address = some url)
    (hheaders : headers.all (fun h => sendable h.2) = true) :
    send method address headers body timeout =
      Program.call (I := interface) (.send url ⟨method, url.target, headers, body⟩ timeout)
        fun r => .done (Except.mapError (Loss.error url) r) := by
  simp only [send, hurl]
  rw [if_pos hheaders]
  rfl

/-- No other request is sent. -/
theorem send_of_unsendable
    (h : Url.parse? address = none ∨ headers.all (fun h => sendable h.2) = false) :
    send method address headers body timeout = return .error .unsendable := by
  cases hurl : Url.parse? address with
  | none => simp only [send, hurl]
  | some url =>
    simp only [send, hurl]
    rw [if_neg]
    simp [h.resolve_left (by simp [hurl])]

/-! ## JSON -/

/-- The request that JSON is sent with. -/
def posting (url : Url) (v : Json) : Request :=
  ⟨"POST", url.target, [("content-type", "application/json")], encode v.compactChars⟩

variable {v : Json}

/-- JSON is sent once. -/
theorem sendJson_of_parse? (hurl : Url.parse? address = some url) :
    sendJson address v timeout =
      Program.call (I := interface) (.send url (posting url v) timeout)
        fun r => .done (Except.mapError (Loss.error url) r) :=
  send_of_sendable hurl (by decide)

/-- To no address nothing is sent. -/
theorem sendJson_of_none (hurl : Url.parse? address = none) :
    sendJson address v timeout = return .error .unsendable :=
  send_of_unsendable (Or.inl hurl)

end MarkdownIndex.Net
