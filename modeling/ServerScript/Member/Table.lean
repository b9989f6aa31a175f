import ServerScript.Member.Application
import ServerScript.Member.Dictionary
import ServerScript.Member.Err
import ServerScript.Member.Request
import ServerScript.Member.Response
import ServerScript.Member.Server

/-! The members of every kind of object. -/
namespace ServerScript

def ObjectRef.members : ObjectRef → Members
  | .dictionary cell => .dictionary cell
  | .err => .err
  | .collection _ content => .collection content
  | .request => .request
  | .response => .response
  | .server => .server
  | .cookies _ => .cookies
  | .session _ => .session
  | .application _ => .application

end ServerScript
