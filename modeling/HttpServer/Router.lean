import HttpServer.StaticFileHandler

/-!
# The router

`GET` and `HEAD` go to the file handler; the answer to `HEAD` keeps the length
of the body it leaves out.  Every other method is refused.
-/

namespace HttpServer

def methodNotAllowed : HttpResponse :=
  { statusCode := 405
    reasonPhrase := ascii "Method Not Allowed"
    headers := (HeaderMap.empty.assign (ascii "Allow") (ascii "GET, HEAD")).assign
      (ascii "Content-Type") (ascii "text/plain")
    body := ascii "method not allowed\n" }

/-- What `route_request` makes of the handler's answer to a `HEAD` request. -/
def HttpResponse.withoutBody (response : HttpResponse) : HttpResponse :=
  { response with
    contentLength := some (response.contentLength.getD response.body.length)
    suppressBody := true }

def routeRequest {fs : FileSystem} (request : HttpRequest) (fileHandler : StaticFileHandler fs) :
    HttpResponse :=
  if request.method = ascii "GET" ∨ request.method = ascii "HEAD" then
    let response := fileHandler.handle request
    if request.method = ascii "HEAD" then response.withoutBody else response
  else
    methodNotAllowed

theorem routeRequest_statusCode_mem
    {fs : FileSystem}
    (request : HttpRequest)
    (fileHandler : StaticFileHandler fs) :
    (routeRequest request fileHandler).statusCode ∈ [200, 400, 403, 404, 405] := by
  have hmem := fileHandler.handle_statusCode_mem request
  have hhandled : (fileHandler.handle request).statusCode ∈ [200, 400, 403, 404, 405] :=
    List.mem_append_left [405] hmem
  unfold routeRequest
  dsimp only
  split_ifs
  · exact hhandled
  · exact hhandled
  · decide

end HttpServer
