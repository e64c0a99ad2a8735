import Reckon.Equation
import Reckon.Log

/-!
# Configuration

The settings that hold where nothing else is asked for, and the check that they make sense. The
check reports the first setting that does not.
-/

namespace Reckon

structure Config where
  reading : Reading
  operatorSymbols : List String
  cacheSize : Int
  expressionColumn : String
  resultColumn : String
  errorColumn : String
  logLevel : String

inductive ConfigFault where
  | symbolSet
  | symbolLength
  | cacheSize
  | logLevel
deriving DecidableEq

/-- The level has no wording of its own. -/
def ConfigFault.message : ConfigFault → String
  | symbolSet => "运算符集合固定为 ( ) + - * / ^ %"
  | symbolLength => "运算符均为单字符"
  | cacheSize => "缓存大小不能为负"
  | logLevel => ""

namespace Config

def default : Config where
  reading := ⟨true, false⟩
  operatorSymbols := ["(", ")", "+", "-", "*", "/", "^", "%"]
  cacheSize := 256
  expressionColumn := "expression"
  resultColumn := "result"
  errorColumn := "error"
  logLevel := "INFO"

/-- Eight distinct symbols of one character, a cache that is not negative and a known level. -/
def check (config : Config) : Except ConfigFault Unit :=
  if config.operatorSymbols.eraseDups.length ≠ 8 then .error .symbolSet
  else if config.operatorSymbols.any (·.length ≠ 1) then .error .symbolLength
  else if config.cacheSize < 0 then .error .cacheSize
  else if Log.Level.all.all (·.name ≠ config.logLevel) then .error .logLevel
  else .ok ()

end Config

end Reckon
