import Symbolic.Json.Printer
import Symbolic.Service.Body
import Symbolic.Tool.Call

/-!
What a request to the service is answered with.
-/

namespace Symbolic.Service

inductive Page where
  | whole
  /-- Only what kind of page it would be. -/
  | kind
  | none
deriving DecidableEq, Repr

inductive Reply where
  | tool (response : Tool.Response)
  | batch (responses : List Tool.Response)
  | catalogue
  | health (time : String)
  | badRequest (message : String)
  | batchTooLarge (size : Nat) (limit : Int)
  | unavailable (cause : Tool.BatchError)
  | methodNotAllowed
  | notFound
  /-- The place has another address. -/
  | moved (page : Page) (location : String)
  /-- The request names no place at all. -/
  | noTarget
  | failed

namespace Reply

def status : Reply → Nat
  | .tool _ | .batch _ | .catalogue | .health _ => 200
  | .moved _ _ => 301
  | .badRequest _ | .noTarget => 400
  | .notFound => 404
  | .methodNotAllowed => 405
  | .batchTooLarge _ _ => 413
  | .failed => 500
  | .unavailable _ => 503

def contentType : Reply → String
  | .methodNotAllowed | .notFound | .failed => "text/plain; charset=utf-8"
  | .moved .none _ | .noTarget => ""
  | .moved _ _ => "text/html; charset=utf-8"
  | _ => "application/json"

def escapeMarkup (s : String) : String :=
  String.ofList (s.toList.flatMap fun c =>
    match c with
    | '&' => "&amp;".toList
    | '<' => "&lt;".toList
    | '>' => "&gt;".toList
    | '"' => "&#34;".toList
    | '\'' => "&#39;".toList
    | c => [c])

def line (v : Json) : String := v.compact ++ "\n"

def errorLine (message : String) : String :=
  line (.object [("error", .string message)])

def body : Reply → String
  | .tool response => line response.toJson
  | .batch responses => line (.array (responses.map Tool.Response.toJson))
  | .catalogue => Tool.catalogueText
  | .health time => line (.object [("status", .string "ok"), ("time", .string time)])
  | .badRequest message => errorLine message
  | .batchTooLarge size limit =>
    errorLine ("batch of " ++ toString size ++ " exceeds limit of " ++ toString limit)
  | .unavailable cause => errorLine cause.message
  | .methodNotAllowed => "method not allowed\n"
  | .notFound => "404 page not found\n"
  | .moved .whole location =>
    "<a href=\"" ++ escapeMarkup location ++ "\">Moved Permanently</a>.\n\n"
  | .moved _ _ | .noTarget => ""
  | .failed => "internal server error\n"

end Reply

end Symbolic.Service
