import LinearFcgi.Bytes

/-! `linear_fcgi_response` and `linear_fcgi_http`: the codes of the answers and the
texts that are sent for them. -/
namespace LinearFcgi

/-- `Response::Code`. -/
inductive Response.Code where
  | ok
  | created
  | accepted
  | nonAuthoritativeInformation
  | noContent
  | resetContent
  | partialContent
  | multipleChoices
  | movedPermanently
  | found
  | seeOther
  | notModified
  | useProxy
  | badRequest
  | unauthorized
  | paymentRequired
  | forbidden
  | notFound
  | methodNotAllowed
  | notAcceptable
  | proxyAuthenticationRequired
  | requestTimeout
  | conflict
  | gone
  | lengthRequired
  | preconditionFaild
  | requestEntityTooLarge
  | requestUriTooLong
  | unsupportedMediaType
  | requestRangeNotSatisfiable
  | expectationFailed
  | internalServerError
  | notImplemented
  | badGateway
  | serviceUnavailable
  | gatewayTimeout
  | httpVersionNotSupported
  deriving DecidableEq

/-- `LINEAR_FCGI_RESPONSE_MAP`. -/
def Response.Code.num : Response.Code → Nat
  | .ok => 200
  | .created => 201
  | .accepted => 202
  | .nonAuthoritativeInformation => 203
  | .noContent => 204
  | .resetContent => 205
  | .partialContent => 206
  | .multipleChoices => 300
  | .movedPermanently => 301
  | .found => 302
  | .seeOther => 303
  | .notModified => 304
  | .useProxy => 305
  | .badRequest => 400
  | .unauthorized => 401
  | .paymentRequired => 402
  | .forbidden => 403
  | .notFound => 404
  | .methodNotAllowed => 405
  | .notAcceptable => 406
  | .proxyAuthenticationRequired => 407
  | .requestTimeout => 408
  | .conflict => 409
  | .gone => 410
  | .lengthRequired => 411
  | .preconditionFaild => 412
  | .requestEntityTooLarge => 413
  | .requestUriTooLong => 414
  | .unsupportedMediaType => 415
  | .requestRangeNotSatisfiable => 416
  | .expectationFailed => 417
  | .internalServerError => 500
  | .notImplemented => 501
  | .badGateway => 502
  | .serviceUnavailable => 503
  | .gatewayTimeout => 504
  | .httpVersionNotSupported => 505

/-- `Http::MimeType`. -/
inductive Http.MimeType where
  | textPlain
  | textJavascript
  | appJson
  | appJavascript
  | xWwwFormUrlencoded
  | unknown
  deriving DecidableEq

namespace Response

/-- `Response::getContentType`, with `LINEAR_FCGI_MIME_TYPE_MAP`. -/
def getContentType : Http.MimeType → Bytes
  | .textPlain => ascii "text/plain"
  | .textJavascript => ascii "text/javascript"
  | .appJson => ascii "application/json"
  | .appJavascript => ascii "application/javascript"
  | .xWwwFormUrlencoded => ascii "application/x-www-form-urlencoded"
  | .unknown => ascii "application/x-www-form-urlencoded"

/-- `Response::create(code)`. -/
def createCodeOnly (code : Code) : Bytes :=
  ascii "Status: " ++ ascii (toString code.num) ++ ascii "\r\n\r\n"

/-- `Response::create(code, body, type)`. -/
def createWithBody (code : Code) (body : Bytes) (type : Http.MimeType) : Bytes :=
  ascii "Status: " ++ ascii (toString code.num) ++ ascii "\r\n" ++
    (ascii "Content-Type: " ++ getContentType type ++ ascii "; charset=utf-8\r\n") ++
    (ascii "X-Content-Type-Options: nosniff" ++ ascii "\r\n") ++
    (ascii "Content-Length: " ++ ascii (toString body.length) ++ ascii "\r\n\r\n") ++ body

end Response

/-- What `Request::sendResponse` prints: the code alone, or a body of the default type. -/
def Request.sendResponse (code : Response.Code) : Option Bytes → Bytes
  | none => cString (Response.createCodeOnly code)
  | some body => cString (Response.createWithBody code body .appJavascript)

end LinearFcgi
